import Inventory.Proofs.Cache.Agreement
import Inventory.Proofs.Glob.Places

/-!
# Inventory.Proofs.Cache.Matching

Which of the cached ids a glob finds.

Both caches hold a glob against the bytes of each id. That is the same as to hold it against the characters
for every glob exactly if the ids have no characters of several bytes, and for all ids exactly if the glob
is mild (`plain_glob_finds`).
-/

namespace Inventory.Medium

variable {medium : Medium} {s : medium.backend.State} {type glob : String} {ids : StringSet}

/-- The glob finds those of some ids that it takes. -/
def Finds (medium : Medium) (s : medium.backend.State) (type glob : String) (ids : StringSet)
    (takes : String → Prop) : Prop :=
  ∃ found, medium.backend.Replies s (.matching type glob) (.ok found) ∧
    ∀ id, id ∈ found ↔ id ∈ ids ∧ takes id

theorem ReadsAgree.finds {all : Except Error (List Entity)} (h : medium.ReadsAgree s type ids all)
    (hglob : Glob.IsPlain glob) : medium.Finds s type glob ids (Glob.MatchesBytes glob) := by
  obtain ⟨pattern, hcompile, hmatch⟩ := Glob.exists_compile hglob
  refine ⟨_, h.matching glob pattern hcompile, fun id => ?_⟩
  rw [StringSet.mem_filter, hmatch]

/-- What the glob finds tells which ids it takes. -/
theorem Finds.congr_iff {takes takes' : String → Prop} (h : medium.Finds s type glob ids takes) :
    medium.Finds s type glob ids takes' ↔ ∀ id ∈ ids, takes id ↔ takes' id := by
  obtain ⟨found, hreply, hfound⟩ := h
  constructor
  · rintro ⟨found', hreply', hfound'⟩ id hid
    obtain rfl := Except.ok.inj (hreply.unique hreply')
    rw [← and_iff_right hid (b := takes id), ← hfound, hfound', and_iff_right hid]
  · intro hcongr
    exact ⟨found, hreply, fun id => (hfound id).trans (and_congr_right (hcongr id))⟩

/-- A write adds the ids of its entities to those of its type. -/
theorem mem_ids_respond_write {m : medium.View} (hm : medium.TakesIds type m) (mode : WriteMode)
    {es : List Entity} (hes : ∀ e ∈ es, e.id.isEmpty = false) (id : String) :
    id ∈ medium.ids type (medium.respond (.write mode type es) m).1 ↔
      id ∈ medium.ids type m ∨ id ∈ es.map Entity.id := by
  have hok := respond_write_snd mode type hes m
  cases medium with
  | memory name => exact (keepsIds_memory type).write m mode es trivial hok id
  | node o name => exact (respond_write_members hm).2 hok id

/-- Every id but the empty one can be cached. -/
theorem exists_reaches_mem {c : medium.backend.State} (hc : medium.IsFresh c) (type id : String)
    (hid : id.isEmpty = false) : ∃ s, medium.backend.Reaches (fun _ => True) c s ∧
      id ∈ medium.ids type (medium.view s) := by
  obtain ⟨s, hends, -, hview⟩ :=
    exists_endsIn hc.sound (CachePlan.inTurn [.write .union type [{ id }]])
  refine ⟨s, ⟨_, _, CachePlan.asks_inTurn fun _ _ => trivial, hends⟩, ?_⟩
  rw [hview, CachePlan.run_inTurn_cons, hc.view_eq]
  exact (mem_ids_respond_write (medium.takesIds_fresh type) .union (by simpa using hid) id).2 (.inr (by simp))

theorem readsAgree_of_reaches {kind : CacheRequest → Prop} {c : medium.backend.State}
    (hc : medium.IsFresh c) (hs : medium.backend.Reaches kind c s) (type : String) :
    medium.ReadsAgree s type (medium.ids type (medium.view s))
      (medium.respond (.entities type none none) (medium.view s)).2 := by
  obtain ⟨p, result, -, hends⟩ := hs
  exact readsAgree (run_of_endsIn hc.sound hends).1 type

/-- A glob of literal characters and wildcards is held against the bytes of the cached ids, whatever work
led to the state. In a state all such globs find what they take character by character exactly if no cached
id has a character of several bytes; and a glob does so in all states exactly if it is mild. -/
theorem plain_glob_finds {c : medium.backend.State} (hc : medium.IsFresh c) (type : String) :
    (∀ s, medium.backend.Reaches (fun _ => True) c s →
      ∃ ids, medium.backend.Replies s (.identifiers type) (.ok ids) ∧
        (∀ glob, Glob.IsPlain glob → medium.Finds s type glob ids (Glob.MatchesBytes glob)) ∧
        ((∀ id ∈ ids, ∀ x ∈ id.toList, x.utf8Size = 1) ↔
          ∀ glob, Glob.IsPlain glob → medium.Finds s type glob ids (Glob.Matches glob))) ∧
    ∀ glob, Glob.IsPlain glob → (Glob.isMild glob ↔
      ∀ s ids, medium.backend.Reaches (fun _ => True) c s →
        medium.backend.Replies s (.identifiers type) (.ok ids) →
        medium.Finds s type glob ids (Glob.Matches glob)) := by
  have hagrees := fun s (hs : medium.backend.Reaches (fun _ => True) c s) =>
    readsAgree_of_reaches hc hs type
  refine ⟨fun s hs => ⟨_, (hagrees s hs).identifiers, fun glob => (hagrees s hs).finds, ?_⟩,
    fun glob hglob => ?_⟩
  · constructor
    · intro hbytes glob hglob
      exact ((hagrees s hs).finds hglob).congr_iff.2 fun id hid =>
        Glob.forall_utf8Size_iff.1 (hbytes id hid) glob hglob
    · intro hall id hid
      exact Glob.forall_utf8Size_iff.2 fun glob hglob =>
        ((hagrees s hs).finds hglob).congr_iff.1 (hall glob hglob) id hid
  · rw [Glob.isMild_iff]
    constructor
    · intro hmild s ids hs hids
      obtain rfl := Except.ok.inj ((hagrees s hs).identifiers.unique hids)
      exact ((hagrees s hs).finds hglob).congr_iff.2 fun id _ => hmild id
    · intro hall id
      by_cases hid : id.isEmpty
      · obtain rfl := String.isEmpty_iff.1 hid
        exact Glob.forall_utf8Size_iff.1 (by simp) glob hglob
      · obtain ⟨s, hs, hmem⟩ := exists_reaches_mem hc type id (Bool.eq_false_iff.2 hid)
        exact ((hagrees s hs).finds hglob).congr_iff.1 (hall s _ hs (hagrees s hs).identifiers) id hmem

/-- A question mark beside a star may take a character of two bytes, also behind a colon. -/
theorem plain_glob_finds_on_twoShards :
    let medium := Medium.node { getBatch := 1 } "kv"
    let c : Store := .sharded (["a", "b"].map fun name => { name })
    medium.IsFresh c ∧ ∃ (s : Store) (found : StringSet),
      medium.backend.Reaches (fun _ => True) c s ∧
      medium.backend.Replies s (.matching "t" "*:?*") (.ok found) ∧ "i:é" ∈ found := by
  intro medium c
  have hc : medium.IsFresh c := Store.IsFresh.sharded (by decide)
  obtain ⟨s, hs, hmem⟩ := exists_reaches_mem hc "t" "i:é" (by decide)
  have hplain : Glob.IsPlain "*:?*" := ⟨by simp, by decide⟩
  have hids := (readsAgree_of_reaches hc hs "t").identifiers
  obtain ⟨found, hreply, hfound⟩ :=
    ((plain_glob_finds hc "t").2 "*:?*" hplain).1 (by decide) s _ hs hids
  have hmatches : Glob.Matches "*:?*" "i:é" :=
    ⟨['i'], [':', 'é'], rfl, ['é'], rfl, 'é', [], rfl, [], [], rfl, rfl⟩
  exact ⟨hc, s, found, hs, hreply, (hfound _).2 ⟨hmem, hmatches⟩⟩

/-- A question mark alone does not find a character of two bytes. -/
theorem twoByte_id_not_found : ∃ (s : Memory) (ids found : StringSet),
    (Medium.memory "memory").Reachable s ∧ Glob.IsPlain "?" ∧ Glob.Matches "?" "é" ∧
    (Medium.memory "memory").backend.Replies s (.identifiers "t") (.ok ids) ∧ "é" ∈ ids ∧
    (Medium.memory "memory").backend.Replies s (.matching "t" "?") (.ok found) ∧ "é" ∉ found := by
  have hc := (Medium.memory "memory").isFresh_fresh
  obtain ⟨s, hs, hmem⟩ := exists_reaches_mem hc "t" "é" (by decide)
  have hplain : Glob.IsPlain "?" := ⟨by simp, by decide⟩
  have hagree := readsAgree_of_reaches hc hs "t"
  obtain ⟨found, hreply, hfound⟩ := hagree.finds hplain
  refine ⟨s, _, found, hs, hplain, ⟨'é', [], rfl, rfl⟩, hagree.identifiers, hmem, hreply, fun h => ?_⟩
  obtain ⟨b, rest, hbytes, rfl⟩ := ((hfound _).1 h).2
  have hlength : (Bytes.ofText "é").length = 1 := congrArg List.length hbytes
  exact absurd hlength (by decide)

end Inventory.Medium
