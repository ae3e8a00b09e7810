import Inventory.Proofs.Schedule.Operations

/-!
# Inventory.Proofs.Schedule.Punctual

Nothing is missed while time passes.

Whatever an execution waits for lies ahead, since everything whose time has come is taken up before time goes
on (`Scheduler.Punctual.wakeAll`). So time goes on to the next such point and never past one, and whoever
waits for something that must happen does not wait in vain.
-/

namespace Inventory

/-! ## Executions whose time is to come -/

namespace Execution

variable {B : Backend}

/-- Whether an execution, if it merges, has done so by a point in time. -/
def MergesBy (time : Nat) (e : Execution B) : Prop :=
  ∀ source since deadline rest, e.phase = .merging source since deadline rest → deadline ≤ time

/-- Whether an execution does not go on before a later time, and merges for no more than `limit`. -/
structure OnTime (now limit : Nat) (e : Execution B) : Prop where
  wakes : ∀ time, e.wakeTime? = some time → now < time
  merges : e.MergesBy (now + limit)

theorem MergesBy.mono {e : Execution B} {time time' : Nat} (h : e.MergesBy time) (hle : time ≤ time') :
    e.MergesBy time' :=
  fun _ _ _ _ hphase => Nat.le_trans (h _ _ _ _ hphase) hle

theorem OnTime.later {e : Execution B} {now now' limit : Nat} (h : e.OnTime now limit) (hle : now ≤ now')
    (hwakes : ∀ time, e.wakeTime? = some time → now' < time) : e.OnTime now' limit :=
  ⟨hwakes, h.merges.mono (Nat.add_le_add_right hle _)⟩

theorem onTime_of_waiting {e : Execution B} (now limit : Nat) (h : e.phase = .waiting) :
    e.OnTime now limit where
  wakes time htime := by simp [wakeTime?, h] at htime
  merges _ _ _ _ hphase := by simp [h] at hphase

end Execution

namespace Scheduler

variable {B : Backend} {s s' : Scheduler B} {e e' : Execution B} {now limit : Nat}

/-- Whether the execution of an id, if it is in flight, has nothing to do now. -/
def Rests (now limit id : Nat) (s : Scheduler B) : Prop :=
  ∀ e ∈ s.executions, e.id = id → e.OnTime now limit

theorem rests_finish (s : Scheduler B) (e : Execution B) (result : Except Error MergeStats) :
    Rests now limit e.id (s.finish now e result) := by
  intro e' he' hid
  have hne := (List.mem_filter.1 he').2
  simp [hid] at hne

/-- Who gives the backend no time gets an answer to everything. -/
theorem patience_pos_of_stuck {α : Type} {work : B.Work α} {rest : Error → B.Work α}
    (h : s.follow work = (s', .stuck rest)) : 0 < B.patience.nanoseconds := by
  have hprogress : (work.follow (answer B) s.cache).progress = .stuck rest := congrArg Prod.snd h
  clear h
  generalize s.cache = cache at hprogress
  refine Nat.pos_of_ne_zero fun hzero => ?_
  induction work generalizing cache with
  | done result => contradiction
  | note a next ih => exact ih cache hprogress
  | ask r next ih =>
      simp only [Plan.follow, answer, hzero, if_true] at hprogress
      exact ih _ _ hprogress

theorem rests_proceed (s : Scheduler B) (e : Execution B) (source : Source) {deadline : Nat}
    (hdeadline : deadline ≤ now + limit) (work : B.Work MergeStats) :
    Rests now limit e.id (s.proceed now e source deadline work) := by
  unfold proceed
  rcases hfollow : s.follow work with ⟨s₁, result | rest⟩
  · exact rests_finish s₁ e result
  · dsimp only
    split
    · exact rests_finish s₁ e _
    · rename_i hlate
      have hpatience := patience_pos_of_stuck hfollow
      intro e' he' hid
      obtain ⟨e₀, -, rfl⟩ := List.mem_map.1 he'
      have hid₀ : e₀.id = e.id := by
        by_cases hsame : e₀.id = e.id
        · exact hsame
        · rwa [if_neg hsame] at hid
      rw [if_pos hid₀]
      constructor
      · intro time htime
        obtain rfl := Option.some.inj htime
        omega
      · intro source' since' deadline' rest' hphase
        cases hphase
        exact hdeadline

theorem rests_load {ready deadline : Nat}
    (hphase : ∀ e' ∈ s.executions, e'.id = e.id → e'.phase = .loading ready deadline)
    (hlimit : s.options.mergeTimeout.nanoseconds ≤ limit) :
    Rests now limit e.id (s.load now e ready deadline) := by
  unfold load
  split
  · cases (s.agentOf e.agent).report with
    | error err => exact rests_finish s e _
    | ok r =>
        dsimp only [loaded]
        split
        · exact rests_finish s e _
        · exact rests_proceed s e _ (Nat.add_le_add_left hlimit now) _
  · split
    · exact rests_finish s e _
    · intro e' he' hid
      have hloading := hphase e' he' hid
      constructor
      · intro time htime
        simp only [Execution.wakeTime?, hloading, Option.some.injEq] at htime
        omega
      · intro source since deadline' rest hmerging
        rw [hloading] at hmerging
        contradiction

theorem rests_grant (s : Scheduler B) (now : Nat) (e : Execution B)
    (hlimit : s.options.mergeTimeout.nanoseconds ≤ limit) : Rests now limit e.id (s.grant now e) := by
  refine rests_load (e := { e with phase := _ }) (fun e' he' hid => ?_) hlimit
  obtain ⟨e₀, -, rfl⟩ := List.mem_map.1 he'
  by_cases hsame : e₀.id = e.id
  · rw [if_pos hsame]
  · rw [if_neg hsame] at hid
    exact absurd hid hsame

/-- Who goes on has nothing to do afterwards. -/
theorem rests_wake (hs : Numbered s) (he : e ∈ s.executions) (hmerges : e.MergesBy (now + limit))
    (hlimit : s.options.mergeTimeout.nanoseconds ≤ limit) : Rests now limit e.id (s.wake now e) := by
  have hsame : ∀ e' ∈ s.executions, e'.id = e.id → e' = e := fun e' he' => hs.eq_of_id he he'
  unfold wake
  cases hphase : e.phase with
  | waiting =>
      intro e' he' hid
      obtain rfl := hsame e' he' hid
      exact Execution.onTime_of_waiting now limit hphase
  | loading ready deadline =>
      exact rests_load (fun e' he' hid => by rw [hsame e' he' hid, hphase]) hlimit
  | merging source since deadline rest =>
      dsimp only
      split
      · exact rests_proceed s e source (hmerges _ _ _ _ hphase) _
      · split
        · exact rests_finish s e _
        · intro e' he' hid
          obtain rfl := hsame e' he' hid
          refine ⟨fun time htime => ?_, hmerges⟩
          simp only [Execution.wakeTime?, hphase, Option.some.injEq] at htime
          omega

/-! ## Nothing is late -/

theorem Advance.mem_of_ne (h : Advance now e s s') {other : Execution B} (hid : other.id ≠ e.id)
    (hother : other ∈ s'.executions) : other ∈ s.executions := by
  cases h with
  | inl h => exact (h.others other hid).1 hother
  | inr h =>
      obtain ⟨s₁, e', result, h, -, rfl⟩ := h
      exact (h.others other hid).1 (List.mem_filter.1 hother).1

/-- Whether whatever happens by itself lies ahead. -/
structure Punctual (now : Nat) (s : Scheduler B) : Prop extends Numbered s where
  onTime : ∀ e ∈ s.executions, e.OnTime now s.options.mergeTimeout.nanoseconds
  dispatcher : ∀ time, s.nextTick = some time → now < time
  ticks : 0 < s.options.tick.nanoseconds

namespace Punctual

theorem fresh {options : Schedule.Options} (hticks : 0 < options.tick.nanoseconds) (engine : Engine)
    (cache : B.State) : Punctual 0 ({ options, engine, cache } : Scheduler B) :=
  ⟨.fresh options engine cache, List.forall_mem_nil _, nofun, hticks⟩

theorem advance (h : Punctual now s) (he : e ∈ s.executions) (hs' : Advance now e s s')
    (hrests : Rests now s.options.mergeTimeout.nanoseconds e.id s') : Punctual now s' where
  toNumbered := h.toNumbered.advance (tag_mem he) hs'
  onTime e' he' := by
    rw [hs'.options]
    by_cases hid : e'.id = e.id
    · exact hrests e' he' hid
    · exact h.onTime e' (hs'.mem_of_ne hid he')
  dispatcher := by
    rw [hs'.nextTick]
    exact h.dispatcher
  ticks := by
    rw [hs'.options]
    exact h.ticks

theorem finish (h : Punctual now s) (he : e ∈ s.executions) (result : Except Error MergeStats) :
    Punctual now (s.finish now e result) :=
  h.advance he (advance_finish s now e result) (rests_finish s e result)

theorem grantAll (h : Punctual now s) (count : Nat) : Punctual now (grantAll now count s) := by
  induction count generalizing s with
  | zero => exact h
  | succ count ih =>
      rw [Scheduler.grantAll]
      split
      · exact h
      · split
        · rename_i e he
          exact ih (h.advance (List.mem_of_find?_eq_some he) (advance_grant s now e)
            (rests_grant s now e (Nat.le_refl _)))
        · exact h

theorem settle (h : Punctual now s) : Punctual now (s.settle now) := h.grantAll _

theorem begin (h : Punctual now s) (slots : Schedule.Slots) (k : Nat) (isDispatched : Bool) :
    Punctual now ({ s with slots }.begin now k isDispatched) := by
  have hadding : Punctual now ({ s with slots }.adding ({ s with slots }.nextExecution now k isDispatched)) :=
    { h with
      toNumbered := Numbered.adding (s := { s with slots }) { h.toNumbered with } rfl
      onTime := List.forall_mem_append.2
        ⟨h.onTime, List.forall_mem_singleton.2 (Execution.onTime_of_waiting _ _ rfl)⟩ }
  rw [begin_eq]
  dsimp only
  split
  · exact hadding.finish (List.mem_append_right _ (List.mem_singleton_self _)) _
  · exact hadding

theorem dispatch (h : Punctual now s) (name : String) (k : Nat) : Punctual now (s.dispatch now name k) := by
  unfold Scheduler.dispatch
  dsimp only
  split
  · exact h.begin _ k true
  · exact { h with }

/-- The dispatcher looks at all agents, and will do so again. -/
theorem tick (hs : Numbered s)
    (honTime : ∀ e ∈ s.executions, e.OnTime now s.options.mergeTimeout.nanoseconds)
    (hticks : 0 < s.options.tick.nanoseconds) : Punctual now (s.tick now) := by
  have hlook : ∀ (l : List (String × Nat)) (s : Scheduler B), Punctual now s →
      Punctual now (l.foldl (fun s p => s.dispatch now p.1 p.2) s) := by
    intro l
    induction l with
    | nil => exact fun s h => h
    | cons p l ih => exact fun s h => ih _ (h.dispatch p.1 p.2)
  refine hlook _ _ ⟨{ hs with }, honTime, fun time htime => ?_, hticks⟩
  obtain rfl := Option.some.inj htime
  omega

/-- All executions go on whose time has come. -/
theorem wakes (l : List (Execution B)) (hl : (l.map Execution.id).Nodup) (hs : Numbered s)
    (hmem : ∀ e ∈ l, e ∈ s.executions)
    (hmerges : ∀ e ∈ l, e.MergesBy (now + s.options.mergeTimeout.nanoseconds))
    (hothers : ∀ e ∈ s.executions, e ∉ l → e.OnTime now s.options.mergeTimeout.nanoseconds) :
    let s' := l.foldl (fun s e => s.wake now e) s
    Numbered s' ∧ s'.options = s.options ∧ s'.nextTick = s.nextTick ∧
      ∀ e ∈ s'.executions, e.OnTime now s.options.mergeTimeout.nanoseconds := by
  induction l generalizing s with
  | nil => exact ⟨hs, rfl, rfl, fun e he => hothers e he List.not_mem_nil⟩
  | cons e l ih =>
      obtain ⟨he, hmem⟩ := List.forall_mem_cons.1 hmem
      obtain ⟨hmergesSelf, hmerges⟩ := List.forall_mem_cons.1 hmerges
      rw [List.map_cons, List.nodup_cons] at hl
      have hadvance := advance_wake s now e
      have hrests := rests_wake hs he hmergesSelf (Nat.le_refl _)
      have hne : ∀ e' ∈ l, e'.id ≠ e.id := fun e' he' hid => hl.1 (hid ▸ List.mem_map_of_mem he')
      have hlater := ih hl.2 (hs.advance (tag_mem he) hadvance)
        (fun e' he' => hadvance.others (hne e' he') (hmem e' he'))
      rw [hadvance.options, hadvance.nextTick] at hlater
      refine hlater hmerges fun e' he' hnot => ?_
      by_cases hid : e'.id = e.id
      · exact hrests e' he' hid
      · refine hothers e' (hadvance.mem_of_ne hid he') fun hcons => ?_
        rcases List.mem_cons.1 hcons with rfl | htail
        · exact hid rfl
        · exact hnot htail

/-- However late it is, everything whose time has come is taken up. -/
theorem wakeAll (hs : Numbered s) (hticks : 0 < s.options.tick.nanoseconds)
    (hmerges : ∀ e ∈ s.executions, e.MergesBy (now + s.options.mergeTimeout.nanoseconds)) :
    Punctual now (s.wakeAll now) := by
  obtain ⟨hs', hoptions, hnextTick, honTime⟩ :=
    wakes s.executions hs.nodup_ids hs (fun _ => id) hmerges fun e he hnot => absurd he hnot
  rw [← hoptions] at honTime hticks
  unfold Scheduler.wakeAll
  dsimp only
  split
  · rename_i time htime
    split
    · exact (tick hs' honTime hticks).settle
    · refine Punctual.settle ⟨hs', honTime, fun time' htime' => ?_, hticks⟩
      rw [htime, Option.some.injEq] at htime'
      omega
  · rename_i htime
    refine Punctual.settle ⟨hs', honTime, fun time' htime' => ?_, hticks⟩
    rw [htime] at htime'
    contradiction

end Punctual

/-! ## What a shutdown leaves -/

theorem cancels_leave (s : Scheduler B) (now : Nat) (l : List (Execution B)) :
    let s' := l.foldl (fun s e => s.cancel now e) s
    s'.executions = s.executions.filter (fun e => e.id ∉ l.map Execution.id) ∧ s'.options = s.options ∧
      s'.nextTick = s.nextTick ∧ s'.isShutDown = s.isShutDown := by
  induction l generalizing s with
  | nil => simp
  | cons e l ih =>
      obtain ⟨hexecutions, hrest⟩ := ih (s.cancel now e)
      refine ⟨hexecutions.trans ?_, hrest⟩
      simp only [cancel, finish, observe, List.filter_filter, List.map_cons, List.mem_cons, not_or]
      refine List.filter_congr fun e' _ => ?_
      by_cases hid : e'.id = e.id <;> simp [hid]

/-- Only executions that merge outlive a shutdown. -/
theorem shutDown_leaves (hs : Numbered s) (now : Nat) :
    (s.shutDown now).executions = s.executions.filter Execution.isMerging ∧
      (s.shutDown now).options = s.options ∧ (s.shutDown now).nextTick = none ∧
      (s.shutDown now).isShutDown = true := by
  obtain ⟨hexecutions, hrest⟩ := cancels_leave { s with isShutDown := true, nextTick := none } now
    (s.executions.filter fun e => !e.isMerging)
  refine ⟨hexecutions.trans (List.filter_congr fun e he => ?_), hrest⟩
  cases hphase : e.isMerging with
  | true =>
      refine decide_eq_true fun hmem => ?_
      obtain ⟨e', he', hid⟩ := List.mem_map.1 hmem
      obtain ⟨he', hnot⟩ := List.mem_filter.1 he'
      rw [hs.eq_of_id he he' hid, hphase] at hnot
      contradiction
  | false =>
      refine decide_eq_false fun hnot => hnot (List.mem_map_of_mem (List.mem_filter.2 ⟨he, ?_⟩))
      rw [hphase]
      rfl

/-! ## What is next -/

theorem nextWake?_eq_some {next : Nat} (h : s.nextWake? = some next) :
    (s.nextTick = some next ∨ ∃ e ∈ s.executions, e.wakeTime? = some next) ∧
      (∀ time, s.nextTick = some time → next ≤ time) ∧
      ∀ e ∈ s.executions, ∀ time, e.wakeTime? = some time → next ≤ time := by
  obtain ⟨hmem, hleast⟩ := List.min?_eq_some_iff.1 h
  simp only [List.mem_append, Option.mem_toList, List.mem_filterMap] at hmem hleast
  exact ⟨hmem, fun time htime => hleast time (.inl htime),
    fun e he time htime => hleast time (.inr ⟨e, he, htime⟩)⟩

theorem nextWake?_eq_none (h : s.nextWake? = none) :
    s.nextTick = none ∧ ∀ e ∈ s.executions, e.wakeTime? = none := by
  simp only [nextWake?, List.min?_eq_none_iff, List.append_eq_nil_iff, Option.toList_eq_nil_iff,
    List.filterMap_eq_nil_iff] at h
  exact h

theorem Punctual.lt_nextWake (h : Punctual now s) {next : Nat} (hnext : s.nextWake? = some next) :
    now < next := by
  rcases (nextWake?_eq_some hnext).1 with htick | ⟨e, he, hwakes⟩
  · exact h.dispatcher next htick
  · exact (h.onTime e he).wakes next hwakes

/-- Time may go on as long as nothing happens by itself. -/
theorem Punctual.later (h : Punctual now s) {later : Nat} (hle : now ≤ later)
    (hwakes : ∀ next, s.nextWake? = some next → later < next) : Punctual later s := by
  have hnext : (∀ time, s.nextTick = some time → later < time) ∧
      ∀ e ∈ s.executions, ∀ time, e.wakeTime? = some time → later < time := by
    cases hnext : s.nextWake? with
    | none =>
        obtain ⟨htick, hnone⟩ := nextWake?_eq_none hnext
        constructor
        · intro time htime
          rw [htick] at htime
          contradiction
        · intro e he time htime
          rw [hnone e he] at htime
          contradiction
    | some next =>
        obtain ⟨-, htick, hall⟩ := nextWake?_eq_some hnext
        have hlt := hwakes next hnext
        exact ⟨fun time htime => Nat.lt_of_lt_of_le hlt (htick time htime),
          fun e he time htime => Nat.lt_of_lt_of_le hlt (hall e he time htime)⟩
  exact { h with
    onTime := fun e he => (h.onTime e he).later hle (hnext.2 e he)
    dispatcher := hnext.1 }

end Scheduler

namespace Timeline

open Scheduler

variable {B : Backend} {t t' : Timeline B}

/-- However long one waits, nothing is missed meanwhile. -/
theorem punctual_pass (stop : Scheduler B → Bool) (target : Nat) (h : Punctual t.now t.scheduler) :
    Punctual (t.pass stop target).now (t.pass stop target).scheduler := by
  fun_induction pass stop target t with
  | case1 t hstop => exact h
  | case2 t hstop next hnext hlt ih =>
      refine ih (.wakeAll h.toNumbered h.ticks fun e he => ?_)
      exact (h.onTime e he).merges.mono (Nat.add_le_add_right (Nat.le_of_lt hlt.1) _)
  | case3 t hstop next hnext hnot =>
      have hlt := h.lt_nextWake hnext
      refine h.later (Nat.le_max_left _ _) fun next' hnext' => ?_
      obtain rfl := Option.some.inj (hnext.symm.trans hnext')
      dsimp only
      omega
  | case4 t hstop hnone =>
      refine h.later (Nat.le_max_left _ _) fun next hnext => ?_
      rw [hnone] at hnext
      contradiction

/-! ## Histories of a timeline -/

/-- What is asked of the scheduler of a timeline, and what it does by itself. -/
inductive Operates (t : Timeline B) : Timeline B → Prop
  | call {name : String} {called : Called} {s : Scheduler B}
      (hcall : t.scheduler.call t.now name = .ok (called, s)) : Operates t { t with scheduler := s }
  | begin : Operates t (t.modify fun now s => s.start now)
  | stop : Operates t (t.modify fun now s => s.shutDown now)
  | pass (stop : Scheduler B → Bool) (target : Nat) : Operates t (t.pass stop target)

/-- Whether operations and the passing of time lead from one timeline to another. -/
inductive Reaches (start : Timeline B) : Timeline B → Prop
  | start : Reaches start start
  /-- Agents come and go, or something works on the cache. -/
  | move {t : Timeline B} (h : Reaches start t) (move : Move B) (hmove : move.isOwn = false) :
      Reaches start (t.modify fun _ s => s.after move)
  | operate {t t' : Timeline B} (h : Reaches start t) (hop : t.Operates t') : Reaches start t'

theorem Reaches.pass {start : Timeline B} (h : start.Reaches t) (stop : Scheduler B → Bool)
    (target : Nat) : start.Reaches (t.pass stop target) := h.operate (.pass stop target)

/-- What is done on the cache, with all that happens meanwhile, is a history. -/
theorem lasts_reaches (start : Timeline B) : Lasts (start.Reaches ·) where
  pass stop target h := h.pass stop target
  touch cache activity h := h.move (.work cache activity) rfl

theorem Reaches.onDemand {start : Timeline B} (h : start.Reaches t) (type provider : String)
    (request : Attributes) : start.Reaches (t.onDemand type provider request).2 :=
  (lasts_reaches start).refreshAll request _ {} h

theorem Reaches.evictScope {start : Timeline B} (h : start.Reaches t) (agent : Nat) :
    start.Reaches (t.evictScope agent).2 :=
  (lasts_reaches start).merge _ _ _ h

theorem Reaches.dropSlot {start : Timeline B} (h : start.Reaches t) (agent : String) :
    start.Reaches (t.dropSlot agent) := h.move (.dropSlot agent) rfl

theorem Reaches.deregister {start : Timeline B} (h : start.Reaches t) (agent : String) (evict : Bool) :
    start.Reaches (t.deregister agent evict).2 := by
  unfold Timeline.deregister
  split
  · exact h
  · rename_i k hk
    have hmem : agent ∈ t.scheduler.registry.caching := by
      rw [Std.ExtTreeMap.mem_iff_isSome_getElem?, hk, Option.isSome_some]
    have hgone : start.Reaches ((t.modify fun _ s =>
        { s with registry := s.registry.deregister agent }).dropSlot agent) := by
      have hafter := h.move (.deregister agent) rfl
      rwa [modify, Scheduler.after, if_pos hmem] at hafter
    dsimp only
    split
    · exact hgone.evictScope k
    · exact hgone

theorem Reaches.evictScopes {start : Timeline B} (h : start.Reaches t) (agents : List (String × Nat))
    (stats : MergeStats) : start.Reaches (evictScopes stats t agents).2 := by
  induction agents generalizing t stats with
  | nil => exact h
  | cons p agents ih =>
      have hevict := (h.dropSlot p.1).evictScope p.2
      rw [Timeline.evictScopes]
      split
      · rename_i e t₁ hresult
        rwa [hresult] at hevict
      · rename_i more t₁ hresult
        rw [hresult] at hevict
        exact ih hevict _

theorem Reaches.deregisterAccount {start : Timeline B} (h : start.Reaches t) (provider account : String) :
    start.Reaches (t.deregisterAccount provider account).2 :=
  (h.move (.deregisterAccount provider account) rfl).evictScopes _ _

theorem Reaches.shutDown {start : Timeline B} (h : start.Reaches t) : start.Reaches t.shutDown :=
  (h.operate .stop).pass _ _

/-! ## Nothing is missed in a history -/

theorem punctual_move (h : Punctual t.now t.scheduler) {move : Move B} (hmove : move.isOwn = false) :
    Punctual t.now (t.scheduler.after move) := by
  cases move with
  | register a =>
      cases hs' : t.scheduler.register a with
      | error e => simpa [Scheduler.after, hs'] using h
      | ok s' =>
          obtain rfl := register_eq_ok hs'
          simp only [Scheduler.after, hs']
          exact { h with }
  | modifyAgent => exact { h with }
  | deregister agent =>
      simp only [Scheduler.after]
      split
      · exact { h with }
      · exact h
  | deregisterAccount => exact { h with }
  | dropSlot => exact { h with }
  | work => exact { h with }
  | _ => contradiction

theorem punctual_call (h : Punctual t.now t.scheduler) {name : String} {called : Called} {s : Scheduler B}
    (hcall : t.scheduler.call t.now name = .ok (called, s)) : Punctual t.now s := by
  unfold Scheduler.call at hcall
  split at hcall
  · contradiction
  · split at hcall
    · cases hcall
      exact { h with }
    · cases hcall
      exact (h.begin _ _ false).settle

theorem punctual_start (h : Punctual t.now t.scheduler) : Punctual t.now (t.scheduler.start t.now) := by
  unfold Scheduler.start
  split
  · exact h
  · exact (Punctual.tick h.toNumbered h.onTime h.ticks).settle

theorem punctual_shutDown (h : Punctual t.now t.scheduler) :
    Punctual t.now (t.scheduler.shutDown t.now) := by
  obtain ⟨hexecutions, hoptions, hnextTick, -⟩ := shutDown_leaves h.toNumbered t.now
  refine ⟨h.toNumbered.runs (Scheduler.runs_shutDown h.toNumbered t.now).inner, ?_, ?_, ?_⟩
  · rw [hexecutions, hoptions]
    exact fun e he => h.onTime e (List.mem_filter.1 he).1
  · intro time htime
    rw [hnextTick] at htime
    contradiction
  · rw [hoptions]
    exact h.ticks

theorem Operates.punctual (h : t.Operates t') (ht : Punctual t.now t.scheduler) :
    Punctual t'.now t'.scheduler := by
  cases h with
  | call hcall => exact punctual_call ht hcall
  | begin => exact punctual_start ht
  | stop => exact punctual_shutDown ht
  | pass stop target => exact punctual_pass stop target ht

theorem Reaches.punctual {start : Timeline B} (h : start.Reaches t)
    (hstart : Punctual start.now start.scheduler) : Punctual t.now t.scheduler := by
  induction h with
  | start => exact hstart
  | move _ move hmove ih => exact punctual_move ih hmove
  | operate _ hop ih => exact hop.punctual ih

end Timeline

end Inventory
