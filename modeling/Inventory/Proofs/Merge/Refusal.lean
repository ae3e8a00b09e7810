import Inventory.Proofs.Merge.Ids
import Inventory.Proofs.Merge.Phases

/-!
# Inventory.Proofs.Merge.Refusal

What refuses a report.

As long as the cache answers, a report is refused if and only if one of its ids is, and then the cache is
left as it is (`Medium.view_of_endsIn_error`); otherwise the merge succeeds
(`Medium.endsIn_of_accepts`).
-/

namespace Inventory

open KeyValue Engine

namespace Medium

variable {medium : Medium}

/-- Ids are listed in every state. -/
theorem lists (medium : Medium) (pre : medium.View → Prop) (type : String) :
    Lists medium.respond pre type (medium.ids type) := by
  cases medium with
  | memory name =>
      refine ⟨fun s _ => rfl, fun (m : Memory) l _ => ?_⟩
      have hcontains : (m.recordsOf type).contains = (m.identifiers type).contains := by
        funext x
        rw [Bool.eq_iff_iff, Std.ExtTreeSet.contains_iff_mem, Memory.identifiers, StringMap.mem_keySet,
          Std.ExtTreeMap.contains_iff_mem]
      change (m, Except.ok (Std.ExtTreeSet.ofList (l.filter (m.recordsOf type).contains))) =
        (m, Except.ok (Std.ExtTreeSet.ofList (l.filter (m.identifiers type).contains)))
      rw [hcontains]
  | node o name =>
      exact ⟨fun s _ => Backend.respond_read rfl s, fun s l _ => Backend.respond_read rfl s⟩

/-- Entities that have ids are written. -/
theorem respond_write_snd (mode : WriteMode) (type : String) {es : List Entity}
    (hes : ∀ e ∈ es, e.id.isEmpty = false) (m : medium.View) :
    (medium.respond (.write mode type es) m).2 = .ok () := by
  cases medium with
  | memory name => exact congrArg Prod.snd (Memory.writeAll_of_forall mode type hes _)
  | node o name => exact congrArg Prod.snd (respond_write hes m)

theorem respond_evict_snd (type : String) (l : List String) (m : medium.View) :
    (medium.respond (.evict type l) m).2 = .ok () := by
  cases medium with
  | memory name => rfl
  | node o name => exact congrArg Prod.snd (respond_evict m l)

variable (engine : Engine) (source : Source) (authoritative : StringSet) (r : Report)

/-- A merge fails only where ids are refused, and then the cache is as it was; otherwise it applies the
report. -/
theorem fulfils_mergeSnapshot (good : MergeStats → medium.View → Prop) {m : medium.View}
    (happly : engine.Accepts r → ∀ stale : StringMap StringSet,
      (∀ t, StringMap.find stale t = staleOf engine source authoritative r t (medium.ids t m)) →
      (∀ t ∈ stale, t ∈ authoritative) →
      Plan.Fulfils medium.respond (.alone _) (fun m' => m' = m) (apply authoritative r stale) good
        fun _ _ => False) :
    Plan.Fulfils medium.respond (.alone _) (fun m' => m' = m)
      (mergeSnapshot engine source authoritative r) (fun stats m' => engine.Accepts r ∧ good stats m')
      (fun _ m' => m' = m ∧ ¬ engine.Accepts r) := by
  refine Plan.fulfils_bind _ (engine.fulfils_checkAll source (namedIds r)) fun _ => ?_
  by_cases haccepts : engine.Accepts r
  · refine Plan.fulfils_bind _ ((engine.fulfils_staleIds source authoritative r
      (Plan.Conduct.stable_alone fun m' => m' = m) (fun _ => trivial)
      (fun t _ => medium.lists _ t) fun t _ s s' hs _ => by rw [hs]).mono (fun _ hs => hs.1)
      (fun _ _ hs => hs) fun _ _ hs => hs) fun stale s hs => ?_
    obtain ⟨rfl, hfind, htypes⟩ := hs
    exact (happly haccepts stale hfind htypes).mono (fun _ h => h) (fun _ _ h => ⟨haccepts, h⟩)
      (fun _ _ h => h.elim) s rfl
  · exact fun s hs => absurd hs.2 haccepts

/-- So does a merge that makes nothing stale. -/
theorem fulfils_mergePartial (good : MergeStats → medium.View → Prop) {m : medium.View}
    (happly : engine.Accepts r → Plan.Fulfils medium.respond (.alone _) (fun m' => m' = m)
      (apply authoritative r ∅) good fun _ _ => False) :
    Plan.Fulfils medium.respond (.alone _) (fun m' => m' = m)
      (mergePartial engine source authoritative r) (fun stats m' => engine.Accepts r ∧ good stats m')
      (fun _ m' => m' = m ∧ ¬ engine.Accepts r) := by
  refine Plan.fulfils_bind _ (engine.fulfils_checkAll source (namedIds r)) fun _ => ?_
  by_cases haccepts : engine.Accepts r
  · exact (happly haccepts).mono (fun _ hs => hs.1) (fun _ _ h => ⟨haccepts, h⟩) fun _ _ h => h.elim
  · exact fun s hs => absurd hs.2 haccepts

/-- Nothing of an accepted report is refused. -/
theorem fulfils_apply (haccepts : engine.Accepts r) (stale : StringMap StringSet) :
    Plan.Fulfils medium.respond (.alone _) (fun _ => True) (apply authoritative r stale)
      (fun _ _ => True) fun _ _ => False := by
  refine Plan.fulfils_bind (fun _ _ => True) (fulfils_writeAll authoritative r
    (fun _ _ => True) (fun _ => Plan.Conduct.stable_alone _) (fun _ _ _ _ => trivial) ?_)
    fun stats => ?_
  · rintro t es rest hmem - s -
    refine ⟨trivial, respond_write_snd _ _ (fun e he => ?_) s, trivial⟩
    obtain ⟨e', he', rfl⟩ := List.mem_map.1 he
    rw [id_partOf]
    exact isEmpty_of_accepts haccepts hmem he'
  · have hbears : Bears medium.respond (.alone _) (fun _ => True) fun _ => True :=
      ⟨Plan.Conduct.stable_alone _, fun _ _ _ _ _ _ => ⟨trivial, trivial, fun _ _ _ _ _ _ => trivial⟩,
        fun _ _ _ _ _ _ _ _ => ⟨trivial, trivial⟩⟩
    exact fulfils_evictAll (fun _ _ => True) (fun _ => Plan.Conduct.stable_alone _)
      (fun _ _ _ _ => hbears.fulfils_cascade trivial _) (fun _ _ _ _ => trivial)
      (fun t l _ _ s _ => ⟨trivial, respond_evict_snd t l.toList s, trivial⟩) stats

theorem fulfils_refusal (m : medium.View) :
    Plan.Fulfils medium.respond (.alone _) (fun m' => m' = m)
      (mergeSnapshot engine source authoritative r) (fun _ _ => engine.Accepts r)
      (fun _ m' => m' = m ∧ ¬ engine.Accepts r) :=
  (fulfils_mergeSnapshot engine source authoritative r (fun _ _ => True) fun haccepts stale _ _ =>
    (fulfils_apply engine authoritative r haccepts stale).mono (fun _ _ => trivial) (fun _ _ h => h)
      fun _ _ h => h).mono (fun _ h => h) (fun _ _ h => h.1) fun _ _ h => h

variable {engine source authoritative r} {s : medium.backend.State}

/-- A report whose ids are accepted is merged. -/
theorem endsIn_of_accepts (hs : medium.Sound s) (h : engine.Accepts r) :
    ∃ s' stats, medium.backend.EndsIn (mergeSnapshot engine source authoritative r) s s' (.ok stats) ∧
      medium.Sound s' := by
  obtain ⟨s', hends, hsound, -⟩ := exists_endsIn hs (mergeSnapshot engine source authoritative r)
  have hend := (fulfils_refusal engine source authoritative r (medium.view s)).run rfl
    (Prod.eta (Plan.run _ _ _)).symm
  cases hresult : ((mergeSnapshot engine source authoritative r).run medium.respond
      (medium.view s)).2 with
  | ok stats =>
      rw [hresult] at hends
      exact ⟨s', stats, hends, hsound⟩
  | error e =>
      rw [hresult] at hend
      exact absurd h hend.2

/-- Only a report that is accepted is merged. -/
theorem accepts_of_endsIn (hs : medium.Sound s) {s' : medium.backend.State} {stats : MergeStats}
    (h : medium.backend.EndsIn (engine.mergeSnapshot source authoritative r) s s' (.ok stats)) :
    engine.Accepts r :=
  (fulfils_refusal engine source authoritative r (medium.view s)).run rfl (run_of_endsIn hs h).2

/-- A merge that fails was refused, and leaves what requests are answered from as it was. -/
theorem view_of_endsIn_error (hs : medium.Sound s) {s' : medium.backend.State} {e : Error}
    (h : medium.backend.EndsIn (mergeSnapshot engine source authoritative r) s s' (.error e)) :
    medium.view s' = medium.view s ∧ ¬ engine.Accepts r := by
  obtain ⟨-, hrun⟩ := run_of_endsIn hs h
  exact (fulfils_refusal engine source authoritative r (medium.view s)).run rfl hrun

end Medium

end Inventory
