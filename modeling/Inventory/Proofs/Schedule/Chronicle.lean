import Inventory.Proofs.Merge.Media
import Inventory.Proofs.Schedule.Turns

/-!
# Inventory.Proofs.Schedule.Chronicle

What can be told of the past of a scheduler.

What has happened so far says of every execution what it may have asked (`Chronicle`): nothing before its
merge has begun, and its merge has begun only if its agent had reported and nothing was shut down. So an
execution that ends by its load, because the agent failed or took too long or because it was cancelled, has
asked nothing at all, unless it was cancelled in the middle of its merge.
-/

namespace Inventory

open Error (IsOfCache)

/-! ## Requests on record -/

/-- The backend with a record of all requests that it was asked, the latest first. -/
def Backend.recorded (B : Backend) : Backend where
  State := B.State × List B.Request
  Request := B.Request
  Reply := B.Reply
  name s := B.name s.1
  plan := B.plan
  answer r s := (((B.answer r s.1).1, r :: s.2), (B.answer r s.1).2)
  patience := B.patience
  silence s := B.silence s.1

theorem Backend.Blameless.recorded {B : Backend} (h : B.Blameless) : B.recorded.Blameless where
  plan := h.plan
  answer r s := h.answer r s.1
  silence s := h.silence s.1

theorem Medium.blameless (medium : Medium) : medium.backend.Blameless := by
  cases medium with
  | memory name => exact Backend.blameless_memory name
  | node o name => exact Backend.blameless_keyValue o

namespace Scheduler

variable {B : Backend} {s s' start : Scheduler B} {past : List (Turn B)} {move : Move B} {e : Execution B}
  {id : Nat}

namespace Turn

/-- Whether the backend is asked something in a turn. -/
def Asks {B : Backend} (t : Turn B.recorded) : Prop := t.after.cache.2 ≠ t.before.cache.2

/-- Whether an execution begins to merge: it did not merge, and now it does, or it has ended in another way
than loads do. -/
def Begins (t : Turn B) (id : Nat) : Prop :=
  ∃ e ∈ t.before.executions, e.id = id ∧ e.isMerging = false ∧
    ((∃ e' ∈ t.after.executions, e'.id = id ∧ e'.isMerging = true) ∨
      ∃ result, (id, result) ∈ t.after.outcomes ∧ Blames IsOfCache result)

/-- Whether an execution is cancelled in a turn although it merges. -/
def Cuts (t : Turn B) (id : Nat) : Prop := ∃ e ∈ t.before.executions, e.id = id ∧ Scheduler.Cuts t.move e

/-- Whether the agent of an execution has reported in time in a turn: it was asked for its data then or
earlier, and is done with it neither later than the turn nor after its deadline. -/
def LoadsInTime (past : List (Turn B)) (t : Turn B) (e : Execution B) : Prop :=
  (∃ r, (t.before.agentOf e.agent).report = .ok r) ∧
    ∃ asking ∈ past ++ [t], ∃ asked now, asking.move = .grant asked e.id ∧
      (t.move = .grant now e.id ∨ t.move = .wake now e.id) ∧
      asking.before.readyAt asked e ≤ now ∧ now ≤ asking.before.deadlineAt asked

end Turn

/-! ## What has happened so far -/

/-- Whether an execution has left the cache alone. -/
def Quiet (past : List (Turn B)) (id : Nat) : Prop :=
  ∀ t ∈ past, t.move.execution? = some id → t.after.cache = t.before.cache

/-- Whether an execution has left the cache alone, unless it was cancelled in the middle of its merge. -/
def Discards (past : List (Turn B)) (id : Nat) : Prop := Quiet past id ∨ ∃ t ∈ past, t.Cuts id

/-- What an execution in flight has done so far. -/
def Accounts (past : List (Turn B)) (e : Execution B) : Prop :=
  match e.phase with
  | .waiting => Quiet past e.id
  | .loading ready deadline => Quiet past e.id ∧ ∃ asking ∈ past, ∃ asked,
      asking.move = .grant asked e.id ∧ ready = asking.before.readyAt asked e ∧
        deadline = asking.before.deadlineAt asked
  | .merging _ _ _ rest => (∃ t ∈ past, t.Begins e.id) ∧
      ∀ err, IsOfCache err → (rest err).FailsFor IsOfCache

/-- The ids of all executions that have begun. -/
def ids (s : Scheduler B) : List Nat := s.executions.map Execution.id ++ s.outcomes.map Prod.fst

/-- What can be told of the past of a scheduler. -/
structure Chronicle (past : List (Turn B)) (s : Scheduler B) : Prop where
  numbered : s.ids.Nodup
  begun : ∀ id ∈ s.ids, id < s.begun
  future : ∀ id, s.begun ≤ id → Quiet past id
  accounts : ∀ e ∈ s.executions, Accounts past e
  discarded : ∀ id err, (id, .error err) ∈ s.outcomes → err.endsLoad = true → Discards past id
  works : s.isShutDown = false → ∀ t ∈ past, ¬t.move.IsStop

theorem Chronicle.fresh (options : Schedule.Options) (engine : Engine) (cache : B.State) :
    Chronicle [] ({ options, engine, cache } : Scheduler B) where
  numbered := List.nodup_nil
  begun _ h := nomatch h
  future _ _ _ h := nomatch h
  accounts _ h := nomatch h
  discarded _ _ h := nomatch h
  works _ _ h := nomatch h

/-! ### One turn more -/

section Snoc

variable {t : Turn B}

theorem Quiet.snoc (h : Quiet past id) (ht : t.move.execution? = some id → t.after.cache = t.before.cache) :
    Quiet (past ++ [t]) id := by
  intro t' hmem hid
  rcases List.mem_append.1 hmem with hold | hnew
  · exact h t' hold hid
  · obtain rfl := List.mem_singleton.1 hnew
    exact ht hid

theorem Discards.snoc (h : Discards past id)
    (ht : t.move.execution? = some id → t.after.cache = t.before.cache) : Discards (past ++ [t]) id := by
  rcases h with hquiet | ⟨cut, hmem, hcuts⟩
  · exact .inl (hquiet.snoc ht)
  · exact .inr ⟨cut, List.mem_append_left _ hmem, hcuts⟩

/-- Who leaves the cache alone in a turn leaves what others have done as it was. -/
theorem Accounts.snoc (h : Accounts past e)
    (ht : t.move.execution? = some e.id → t.after.cache = t.before.cache) : Accounts (past ++ [t]) e := by
  unfold Accounts at h ⊢
  split
  · rename_i hphase
    simp only [hphase] at h
    exact h.snoc ht
  · rename_i hphase
    simp only [hphase] at h
    obtain ⟨hquiet, asking, hmem, hasking⟩ := h
    exact ⟨hquiet.snoc ht, asking, List.mem_append_left _ hmem, hasking⟩
  · rename_i hphase
    simp only [hphase] at h
    obtain ⟨⟨begin, hmem, hbegins⟩, hrest⟩ := h
    exact ⟨⟨begin, List.mem_append_left _ hmem, hbegins⟩, hrest⟩

/-- An execution that does not merge has left the cache alone. -/
theorem Accounts.quiet (h : Accounts past e) (hphase : e.isMerging = false) : Quiet past e.id := by
  unfold Execution.isMerging at hphase
  unfold Accounts at h
  split at h
  · exact h
  · exact h.1
  · simp_all

end Snoc

namespace Chronicle

/-! ### Ids -/

theorem mem_ids (he : e ∈ s.executions) : e.id ∈ s.ids :=
  List.mem_append_left _ (List.mem_map_of_mem he)

theorem eq_of_id (h : Chronicle past s) {e e' : Execution B} (he : e ∈ s.executions)
    (he' : e' ∈ s.executions) (hid : e'.id = e.id) : e' = e :=
  List.inj_on_of_nodup_map (List.nodup_append.1 h.numbered).1 he' he hid

theorem not_mem_outcomes (h : Chronicle past s) (he : e ∈ s.executions) (result : Except Error MergeStats) :
    (e.id, result) ∉ s.outcomes := by
  intro hmem
  exact (List.nodup_append.1 h.numbered).2.2 e.id (List.mem_map_of_mem he) e.id
    (List.mem_map_of_mem (f := Prod.fst) hmem) rfl

theorem course (h : Chronicle past s) (hB : B.Blameless) (hmakes : Makes s move s') : Course s move s' := by
  refine hmakes.course hB (fun e he => h.begun _ (mem_ids he)) ?_
  intro e he source since deadline rest hphase
  have haccounts := h.accounts e he
  simp only [Accounts, hphase] at haccounts
  exact haccounts.2

/-! ### What one turn adds -/

theorem working (h : Chronicle past s) {executions : List (Execution B)}
    {outcomes : List (Nat × Except Error MergeStats)} {begun : Nat}
    (hleaves : Leaves s move s' executions outcomes begun) (hworks : s'.isShutDown = false) :
    ∀ t ∈ past ++ [⟨s, move, s'⟩], ¬t.move.IsStop := by
  obtain ⟨hold, hstop⟩ := hleaves.works hworks
  intro t ht
  rcases List.mem_append.1 ht with hpast | hnew
  · exact h.works hold t hpast
  · obtain rfl := List.mem_singleton.1 hnew
    exact hstop

theorem rests (h : Chronicle past s) (hleaves : Leaves s move s' s.executions s.outcomes s.begun)
    (hcache : ∀ id, move.execution? = some id → s'.cache = s.cache) :
    Chronicle (past ++ [⟨s, move, s'⟩]) s' where
  numbered := by
    rw [ids, hleaves.executions, hleaves.outcomes]
    exact h.numbered
  begun := by
    rw [ids, hleaves.executions, hleaves.outcomes, hleaves.begun]
    exact h.begun
  future id hid := by
    rw [hleaves.begun] at hid
    exact (h.future id hid).snoc (hcache id)
  accounts e he := by
    rw [hleaves.executions] at he
    exact (h.accounts e he).snoc (hcache e.id)
  discarded id err hmem herr := by
    rw [hleaves.outcomes] at hmem
    exact (h.discarded id err hmem herr).snoc (hcache id)
  works := h.working hleaves

theorem begins (h : Chronicle past s) (hid : e.id = s.begun) (hphase : e.phase = .waiting)
    (hmove : move.execution? = none)
    (hleaves : Leaves s move s' (s.executions ++ [e]) s.outcomes (s.begun + 1)) :
    Chronicle (past ++ [⟨s, move, s'⟩]) s' where
  numbered := by
    rw [ids, hleaves.executions, hleaves.outcomes, List.map_append, List.append_assoc]
    refine List.nodup_middle.2 (List.nodup_cons.2 ⟨fun hmem => ?_, h.numbered⟩)
    have hlt := h.begun e.id hmem
    omega
  begun id hmem := by
    rw [ids, hleaves.executions, hleaves.outcomes, List.map_append, List.append_assoc] at hmem
    rw [hleaves.begun]
    rcases List.mem_cons.1 (List.perm_middle.mem_iff.1 hmem) with rfl | hold
    · omega
    · have hlt := h.begun id hold
      omega
  future id hnext := by
    rw [hleaves.begun] at hnext
    exact (h.future id (by omega)).snoc fun hid => by simp [hmove] at hid
  accounts e' he' := by
    rw [hleaves.executions] at he'
    have hnone : ∀ id, move.execution? = some id → s'.cache = s.cache := fun id hid => by simp [hmove] at hid
    rcases List.mem_append.1 he' with hold | hnew
    · exact (h.accounts e' hold).snoc (hnone e'.id)
    · obtain rfl := List.mem_singleton.1 hnew
      simp only [Accounts, hphase]
      exact (h.future _ (Nat.le_of_eq hid.symm)).snoc (hnone _)
  discarded id err hmem herr := by
    rw [hleaves.outcomes] at hmem
    exact (h.discarded id err hmem herr).snoc fun hid => by simp [hmove] at hid
  works := h.working hleaves

theorem refuses (h : Chronicle past s) {err : Error} (hmove : move.execution? = none)
    (hleaves : Leaves s move s' s.executions ((s.begun, .error err) :: s.outcomes) (s.begun + 1)) :
    Chronicle (past ++ [⟨s, move, s'⟩]) s' where
  numbered := by
    rw [ids, hleaves.executions, hleaves.outcomes]
    refine List.nodup_middle.2 (List.nodup_cons.2 ⟨fun hmem => ?_, h.numbered⟩)
    exact Nat.lt_irrefl _ (h.begun s.begun hmem)
  begun id hmem := by
    rw [ids, hleaves.executions, hleaves.outcomes] at hmem
    rw [hleaves.begun]
    rcases List.mem_cons.1 (List.perm_middle.mem_iff.1 hmem) with rfl | hold
    · exact Nat.lt_succ_self _
    · have hlt := h.begun id hold
      omega
  future id hnext := by
    rw [hleaves.begun] at hnext
    exact (h.future id (by omega)).snoc fun hid => by simp [hmove] at hid
  accounts e he := by
    rw [hleaves.executions] at he
    exact (h.accounts e he).snoc fun hid => by simp [hmove] at hid
  discarded id err' hmem herr := by
    have hnone : move.execution? = some id → s'.cache = s.cache := fun hid => by simp [hmove] at hid
    rw [hleaves.outcomes] at hmem
    rcases List.mem_cons.1 hmem with hnew | hold
    · obtain ⟨rfl, -⟩ := Prod.mk.inj hnew
      exact .inl ((h.future _ (Nat.le_refl _)).snoc hnone)
    · exact (h.discarded id err' hold herr).snoc hnone
  works := h.working hleaves

theorem map_id_setPhase (s : Scheduler B) (id : Nat) (phase : Phase B) :
    (s.setPhase id phase).executions.map Execution.id = s.executions.map Execution.id := by
  rw [setPhase, List.map_map]
  congr 1
  funext e
  by_cases he : e.id = id <;> simp [he]

/-- Of the executions after one has changed its phase, it is the only one that is another. -/
theorem mem_setPhase (h : Chronicle past s) (he : e ∈ s.executions) {phase : Phase B} {e' : Execution B}
    (he' : e' ∈ (s.setPhase e.id phase).executions) :
    e' ∈ s.executions ∧ e'.id ≠ e.id ∨ e' = { e with phase } := by
  obtain ⟨e₀, he₀, rfl⟩ := List.mem_map.1 he'
  by_cases hid : e₀.id = e.id
  · obtain rfl := h.eq_of_id he he₀ hid
    simp
  · simp [hid, he₀]

theorem enters (h : Chronicle past s) (he : e ∈ s.executions) (hmove : move.execution? = some e.id)
    {phase : Phase B} (hleaves : Enters s move s' e.id phase)
    (hnew : Accounts (past ++ [⟨s, move, s'⟩]) { e with phase }) :
    Chronicle (past ++ [⟨s, move, s'⟩]) s' where
  numbered := by
    rw [ids, hleaves.executions, hleaves.outcomes, map_id_setPhase]
    exact h.numbered
  begun := by
    rw [ids, hleaves.executions, hleaves.outcomes, hleaves.begun, map_id_setPhase]
    exact h.begun
  future id hnext := by
    rw [hleaves.begun] at hnext
    have hlt := h.begun e.id (mem_ids he)
    refine (h.future id hnext).snoc fun hid => ?_
    obtain rfl := Option.some.inj (hmove.symm.trans hid)
    omega
  accounts e' he' := by
    rw [hleaves.executions] at he'
    rcases h.mem_setPhase he he' with ⟨hold, hother⟩ | rfl
    · exact (h.accounts e' hold).snoc fun hid => absurd (Option.some.inj (hid.symm.trans hmove)) hother
    · exact hnew
  discarded id err hmem herr := by
    rw [hleaves.outcomes] at hmem
    refine (h.discarded id err hmem herr).snoc fun hid => ?_
    obtain rfl := Option.some.inj (hmove.symm.trans hid)
    exact absurd hmem (h.not_mem_outcomes he _)
  works := h.working hleaves

theorem ends (h : Chronicle past s) (he : e ∈ s.executions) (hmove : move.execution? = some e.id)
    {result : Except Error MergeStats} (hleaves : Ends s move s' e.id result)
    (hresult : ∀ err, result = .error err → err.endsLoad = true →
      (e.isMerging = false ∨ Cuts move e) ∧ s'.cache = s.cache) :
    Chronicle (past ++ [⟨s, move, s'⟩]) s' where
  numbered := by
    rw [ids, hleaves.executions, hleaves.outcomes]
    refine List.nodup_middle.2 (List.nodup_cons.2 ⟨?_, ?_⟩)
    · intro hmem
      rcases List.mem_append.1 hmem with hflight | hended
      · obtain ⟨e', he', hid⟩ := List.mem_map.1 hflight
        simp [hid] at he'
      · obtain ⟨⟨id, result'⟩, hmem, rfl⟩ := List.mem_map.1 hended
        exact h.not_mem_outcomes he result' hmem
    · exact h.numbered.sublist ((List.filter_sublist.map _).append_right _)
  begun id hmem := by
    rw [ids, hleaves.executions, hleaves.outcomes] at hmem
    rw [hleaves.begun]
    rcases List.mem_cons.1 (List.perm_middle.mem_iff.1 hmem) with rfl | hold
    · exact h.begun e.id (mem_ids he)
    · exact h.begun id (((List.filter_sublist.map _).append_right _).mem hold)
  future id hnext := by
    rw [hleaves.begun] at hnext
    have hlt := h.begun e.id (mem_ids he)
    refine (h.future id hnext).snoc fun hid => ?_
    obtain rfl := Option.some.inj (hmove.symm.trans hid)
    omega
  accounts e' he' := by
    rw [hleaves.executions] at he'
    obtain ⟨hold, hother⟩ := List.mem_filter.1 he'
    refine (h.accounts e' hold).snoc fun hid => ?_
    simp [Option.some.inj (hmove.symm.trans hid)] at hother
  discarded id err hmem herr := by
    rw [hleaves.outcomes] at hmem
    rcases List.mem_cons.1 hmem with hnew | hold
    · obtain ⟨rfl, rfl⟩ := Prod.mk.inj hnew
      obtain ⟨hphase | hcuts, hcache⟩ := hresult err rfl herr
      · exact .inl (((h.accounts e he).quiet hphase).snoc fun _ => hcache)
      · exact .inr ⟨_, List.mem_append_right _ (List.mem_singleton_self _), e, he, rfl, hcuts⟩
    · refine (h.discarded id err hold herr).snoc fun hid => ?_
      obtain rfl := Option.some.inj (hmove.symm.trans hid)
      exact absurd hold (h.not_mem_outcomes he _)
  works := h.working hleaves

/-! ### Merges that begin -/

theorem begins_of_enters {source : Source} {since deadline : Nat} {rest : Error → B.Work MergeStats}
    (he : e ∈ s.executions) (hphase : e.isMerging = false)
    (hleaves : Enters s move s' e.id (.merging source since deadline rest)) :
    (⟨s, move, s'⟩ : Turn B).Begins e.id := by
  refine ⟨e, he, rfl, hphase, .inl ⟨{ e with phase := .merging source since deadline rest }, ?_, rfl, rfl⟩⟩
  rw [hleaves.executions]
  exact List.mem_map.2 ⟨e, he, if_pos rfl⟩

theorem begins_of_ends {result : Except Error MergeStats} (he : e ∈ s.executions)
    (hphase : e.isMerging = false) (hblames : Blames IsOfCache result)
    (hleaves : Ends s move s' e.id result) : (⟨s, move, s'⟩ : Turn B).Begins e.id := by
  refine ⟨e, he, rfl, hphase, .inr ⟨result, ?_, hblames⟩⟩
  rw [hleaves.outcomes]
  exact List.mem_cons_self

/-- An execution that merges has begun to. -/
theorem exists_begins (h : Chronicle past s) (he : e ∈ s.executions) (hphase : e.isMerging = true) :
    ∃ t ∈ past, t.Begins e.id := by
  have haccounts := h.accounts e he
  unfold Execution.isMerging at hphase
  unfold Accounts at haccounts
  split at haccounts
  · simp_all
  · simp_all
  · exact haccounts.1

/-- Every turn leaves a past of which the same can be told. -/
theorem turn (h : Chronicle past s) (hB : B.Blameless) (hmakes : Makes s move s') :
    Chronicle (past ++ [⟨s, move, s'⟩]) s' := by
  cases h.course hB hmakes with
  | rests hleaves hcache =>
      refine h.rests hleaves fun id hid => ?_
      rcases hcache with hsame | hwork
      · exact hsame
      · rw [Move.execution?_of_isWork hwork] at hid
        contradiction
  | begins e hid hagent hphase hmove hleaves hcache => exact h.begins hid hphase hmove hleaves
  | refuses err herr hmove hleaves hcache => exact h.refuses hmove hleaves
  | goes e he hmove hfares =>
      cases hfares with
      | rests hleaves hcache => exact h.rests hleaves fun _ _ => hcache
      | loads now hgrant hphase hleaves hcache =>
          have hquiet := ((h.accounts e he).quiet hphase).snoc (t := ⟨s, move, s'⟩) fun _ => hcache
          have hmem : (⟨s, move, s'⟩ : Turn B) ∈ past ++ [⟨s, move, s'⟩] := by simp
          exact h.enters he hmove hleaves ⟨hquiet, _, hmem, now, hgrant, rfl, rfl⟩
      | fails err herr hphase hleaves hcache =>
          exact h.ends he hmove hleaves fun _ _ _ => ⟨hphase, hcache⟩
      | merges source since deadline rest hmay hrest hleaves =>
          refine h.enters he hmove hleaves ⟨?_, hrest⟩
          cases hphase : e.isMerging with
          | true =>
              obtain ⟨begin, hmem, hbegins⟩ := h.exists_begins he hphase
              exact ⟨begin, List.mem_append_left _ hmem, hbegins⟩
          | false =>
              have hbegins := begins_of_enters he hphase hleaves
              exact ⟨_, by simp, hbegins⟩
      | ends result hmay hblames hleaves =>
          refine h.ends he hmove hleaves fun err heq herr => ?_
          have hcause := hblames err heq
          simp [IsOfCache, herr] at hcause

/-- Nothing begins to merge where what merges or has ended in another way than loads do was there before. -/
theorem not_begins (h : Chronicle past s) {executions : List (Execution B)}
    {outcomes : List (Nat × Except Error MergeStats)} {begun : Nat}
    (hleaves : Leaves s move s' executions outcomes begun)
    (hexecutions : ∀ e ∈ executions, e.id = id → e.isMerging = true → e ∈ s.executions)
    (houtcomes : ∀ result, (id, result) ∈ outcomes → Blames IsOfCache result → id = s.begun ∨
      (id, result) ∈ s.outcomes) : ¬(⟨s, move, s'⟩ : Turn B).Begins id := by
  rintro ⟨e, he, rfl, hphase, ⟨e', he', hid, hmerges⟩ | ⟨result, hmem, hblames⟩⟩
  · rw [hleaves.executions] at he'
    obtain rfl := h.eq_of_id he (hexecutions e' he' hid hmerges) hid
    simp [hphase] at hmerges
  · rw [hleaves.outcomes] at hmem
    have hlt := h.begun e.id (mem_ids he)
    rcases houtcomes result hmem hblames with hnext | hold
    · omega
    · exact h.not_mem_outcomes he result hold

/-- Only an execution that is free to merge begins to. -/
theorem mayMerge_of_begins (h : Chronicle past s) (hcourse : Course s move s')
    (hbegins : (⟨s, move, s'⟩ : Turn B).Begins id) :
    ∃ e ∈ s.executions, e.id = id ∧ e.isMerging = false ∧ s.MayMerge move e := by
  cases hcourse with
  | rests hleaves hcache =>
      exact absurd hbegins (h.not_begins hleaves (fun _ he _ _ => he) fun _ hmem _ => .inr hmem)
  | begins e hid hagent hphase hmove hleaves hcache =>
      refine absurd hbegins (h.not_begins hleaves (fun e' he' _ hmerges => ?_) fun _ hmem _ => .inr hmem)
      rcases List.mem_append.1 he' with hold | hnew
      · exact hold
      · obtain rfl := List.mem_singleton.1 hnew
        simp [Execution.isMerging, hphase] at hmerges
  | refuses err herr hmove hleaves hcache =>
      refine absurd hbegins (h.not_begins hleaves (fun _ he _ _ => he) fun result hmem _ => ?_)
      rcases List.mem_cons.1 hmem with hnew | hold
      · exact .inl (Prod.mk.inj hnew).1
      · exact .inr hold
  | goes e he hmove hfares =>
      cases hfares with
      | rests hleaves hcache =>
          exact absurd hbegins (h.not_begins hleaves (fun _ he _ _ => he) fun _ hmem _ => .inr hmem)
      | loads now hgrant hphase hleaves hcache =>
          refine absurd hbegins (h.not_begins hleaves (fun e' he' _ hmerges => ?_) fun _ hmem _ => .inr hmem)
          rcases h.mem_setPhase he he' with ⟨hold, -⟩ | rfl
          · exact hold
          · contradiction
      | fails err herr hphase hleaves hcache =>
          refine absurd hbegins (h.not_begins hleaves (fun _ he _ _ => (List.mem_filter.1 he).1)
            fun result hmem hblames => ?_)
          rcases List.mem_cons.1 hmem with hnew | hold
          · obtain ⟨-, rfl⟩ := Prod.mk.inj hnew
            have hcause := blames_error.1 hblames
            simp [IsOfCache, herr] at hcause
          · exact .inr hold
      | merges source since deadline rest hmay hrest hleaves =>
          by_cases hid : id = e.id
          · subst hid
            obtain ⟨e', he', hid, hphase, -⟩ := hbegins
            obtain rfl := h.eq_of_id he he' hid
            exact ⟨e', he', rfl, hphase, hmay⟩
          · refine absurd hbegins (h.not_begins hleaves (fun e' he' hid' _ => ?_) fun _ hmem _ => .inr hmem)
            rcases h.mem_setPhase he he' with ⟨hold, -⟩ | rfl
            · exact hold
            · exact absurd hid'.symm hid
      | ends result hmay hblames hleaves =>
          by_cases hid : id = e.id
          · subst hid
            obtain ⟨e', he', hid, hphase, -⟩ := hbegins
            obtain rfl := h.eq_of_id he he' hid
            exact ⟨e', he', rfl, hphase, hmay⟩
          · refine absurd hbegins (h.not_begins hleaves (fun _ he _ _ => (List.mem_filter.1 he).1)
              fun result hmem _ => ?_)
            rcases List.mem_cons.1 hmem with hnew | hold
            · exact absurd (Prod.mk.inj hnew).1 hid
            · exact .inr hold

/-- The agent of an execution that begins to merge has reported, and in time if nobody goes on loading after
the deadline. -/
theorem loadsInTime (h : Chronicle past s) (he : e ∈ s.executions) (hphase : e.isMerging = false)
    (htimely : ∀ now ready deadline, move = .wake now e.id → e.phase = .loading ready deadline →
      now ≤ deadline) (hmay : s.MayMerge move e) :
    s.isShutDown = false ∧ (⟨s, move, s'⟩ : Turn B).LoadsInTime past e := by
  rcases hmay with hmerges | ⟨hworks, hreport, now, ready, deadline, hready, hmove⟩
  · simp [hphase] at hmerges
  refine ⟨hworks, hreport, ?_⟩
  rcases hmove with ⟨hwake, hloading⟩ | ⟨hgrant, rfl, rfl⟩
  · have haccounts := h.accounts e he
    have hdeadline := htimely _ _ _ hwake hloading
    simp only [Accounts, hloading] at haccounts
    obtain ⟨-, asking, hmem, asked, hgrant, rfl, rfl⟩ := haccounts
    exact ⟨asking, List.mem_append_left _ hmem, asked, now, hgrant, .inr hwake, hready, hdeadline⟩
  · have hself : (⟨s, move, s'⟩ : Turn B) ∈ past ++ [⟨s, move, s'⟩] := by simp
    exact ⟨_, hself, now, now, hgrant, .inl hgrant, hready, Nat.le_add_right _ _⟩

/-- What touches the cache is work of its own, or an execution that has begun to merge. -/
theorem touches (h : Chronicle past s) (hcourse : Course s move s') (htouches : s'.cache ≠ s.cache) :
    move.IsWork ∨ ∃ id, move.execution? = some id ∧
      ∃ t ∈ past ++ [⟨s, move, s'⟩], t.Begins id := by
  cases hcourse with
  | rests hleaves hcache => exact .inl (hcache.resolve_left htouches)
  | begins e hid hagent hphase hmove hleaves hcache => exact absurd hcache htouches
  | refuses err herr hmove hleaves hcache => exact absurd hcache htouches
  | goes e he hmove hfares =>
      refine .inr ⟨e.id, hmove, ?_⟩
      have hold : e.isMerging = true → ∃ t ∈ past ++ [⟨s, move, s'⟩], t.Begins e.id := by
        intro hphase
        obtain ⟨t, hmem, hbegins⟩ := h.exists_begins he hphase
        exact ⟨t, List.mem_append_left _ hmem, hbegins⟩
      cases hfares with
      | rests hleaves hcache => exact absurd hcache htouches
      | loads now hgrant hphase hleaves hcache => exact absurd hcache htouches
      | fails err herr hphase hleaves hcache => exact absurd hcache htouches
      | merges source since deadline rest hmay hrest hleaves =>
          cases hphase : e.isMerging with
          | true => exact hold hphase
          | false => exact ⟨_, by simp, begins_of_enters he hphase hleaves⟩
      | ends result hmay hblames hleaves =>
          cases hphase : e.isMerging with
          | true => exact hold hphase
          | false => exact ⟨_, by simp, begins_of_ends he hphase hblames hleaves⟩

end Chronicle

/-! ## Whole histories -/

theorem Passes.chronicle {turns : List (Turn B)} (hB : B.Blameless) (hstart : Chronicle past start)
    (h : Passes start turns s) : Chronicle (past ++ turns) s := by
  induction h with
  | start => rwa [List.append_nil]
  | turn hpast hmakes ih =>
      rw [← List.append_assoc]
      exact ih.turn hB hmakes

end Scheduler

end Inventory
