import Inventory.Proofs.KeyValue.Attributes

/-!
# Inventory.Proofs.KeyValue.Removing

What evictions and removed references make of the cells of a store.

An eviction takes the ids out of the members and of the digests and deletes the attributes and the
related ids of every entity, of all related types ever written. It goes through the ids in batches, but
no batch looks at what another one changes, so it is one list of commands (`run_evict`).
-/

namespace Inventory

namespace Cell

variable {c : Cell} {xs : List String}

theorem members_removeMembers (key : String) (x : String) :
    x ∈ ((Command.removeMembers key xs).act c).members ↔ x ∈ c.members ∧ x ∉ xs := by
  rcases hv : c.value with _ | _ | old | _
  · simp [Command.act, members, hv]
  · simp [Command.act, members, hv]
  · by_cases hleft : (old.eraseMany xs).isEmpty
    · have hnone : x ∉ old.eraseMany xs := by simp [Std.ExtTreeSet.isEmpty_iff.1 hleft]
      rw [StringSet.mem_eraseMany] at hnone
      simp [Command.act, members, hv, hleft]
      grind
    · simp [Command.act, members, hv, hleft]
  · simp [Command.act, members, hv]

theorem takesMembers_removeMembers (key : String) :
    ((Command.removeMembers key xs).act c).takesMembers = c.takesMembers := by
  rcases hv : c.value with _ | _ | old | _ <;> grind [Command.act, takesMembers]

end Cell

/-! ## Commands that remove -/

namespace Cells

variable {m : Cells} {commands : List Command} {key : String}

/-- Under a key of which only members are removed, the others are left. -/
theorem members_applyAll (h : ∀ c ∈ commands, c.key = key → ∃ xs, c = .removeMembers key xs) :
    (m.applyAll commands key).takesMembers = (m key).takesMembers ∧
      ∀ x, x ∈ (m.applyAll commands key).members ↔
        x ∈ (m key).members ∧ ∀ xs, .removeMembers key xs ∈ commands → x ∉ xs := by
  induction commands generalizing m with
  | nil => simp
  | cons c commands ih =>
      obtain ⟨htakes, hmem⟩ := ih (m := m.apply c) fun c' hc' => h c' (List.mem_cons_of_mem _ hc')
      rw [applyAll_cons]
      by_cases hkey : c.key = key
      · obtain ⟨xs, rfl⟩ := h c List.mem_cons_self hkey
        have happly : m.apply (.removeMembers key xs) key = (Command.removeMembers key xs).act (m key) :=
          if_pos rfl
        rw [happly] at htakes hmem
        refine ⟨htakes.trans (Cell.takesMembers_removeMembers key), fun x => (hmem x).trans ?_⟩
        rw [Cell.members_removeMembers]
        simp only [List.mem_cons, Command.removeMembers.injEq, true_and]
        grind
      · have hne : ∀ xs, Command.removeMembers key xs ≠ c := fun xs hc => hkey (hc ▸ rfl)
        rw [apply_of_ne hkey] at htakes hmem
        refine ⟨htakes, fun x => (hmem x).trans ?_⟩
        simp [hne]

/-- An empty cell stays empty while only members are removed. -/
theorem applyAll_eq_empty (h : ∀ c ∈ commands, c.key = key → ∃ xs, c = .removeMembers key xs)
    (hkey : m key = {}) : m.applyAll commands key = {} := by
  induction commands generalizing m with
  | nil => exact hkey
  | cons c commands ih =>
      rw [applyAll_cons]
      refine ih (fun c' hc' => h c' (List.mem_cons_of_mem _ hc')) ?_
      by_cases hc : c.key = key
      · obtain ⟨xs, rfl⟩ := h c List.mem_cons_self hc
        rw [apply, if_pos hc, hkey]
        rfl
      · rw [apply_of_ne hc, hkey]

/-- Under a key of which only fields are removed, the others are left. -/
theorem field?_applyAll (h : ∀ c ∈ commands, c.key = key → ∃ fields, c = .removeFields key fields) :
    (m.applyAll commands key).takesFields = (m key).takesFields ∧
      ∀ field value, (m.applyAll commands key).field? field = some value ↔
        (m key).field? field = some value ∧
          ∀ fields, .removeFields key fields ∈ commands → field ∉ fields := by
  induction commands generalizing m with
  | nil => simp
  | cons c commands ih =>
      obtain ⟨htakes, hfield⟩ := ih (m := m.apply c) fun c' hc' => h c' (List.mem_cons_of_mem _ hc')
      rw [applyAll_cons]
      by_cases hkey : c.key = key
      · obtain ⟨fields, rfl⟩ := h c List.mem_cons_self hkey
        have happly : m.apply (.removeFields key fields) key =
            (Command.removeFields key fields).act (m key) := if_pos rfl
        rw [happly] at htakes hfield
        refine ⟨htakes.trans (Cell.takesFields_act rfl), fun field value => (hfield field value).trans ?_⟩
        rw [Cell.field?_removeFields]
        simp only [List.mem_cons, Command.removeFields.injEq, true_and]
        grind
      · have hne : ∀ fields, Command.removeFields key fields ≠ c := fun fields hc => hkey (hc ▸ rfl)
        rw [apply_of_ne hkey] at htakes hfield
        refine ⟨htakes, fun field value => (hfield field value).trans ?_⟩
        simp [hne]

/-- A key that is only deleted is empty afterwards, or as it was. -/
theorem applyAll_delete (h : ∀ c ∈ commands, c.key = key → c = .delete key) :
    m.applyAll commands key = if .delete key ∈ commands then {} else m key := by
  induction commands generalizing m with
  | nil => simp
  | cons c commands ih =>
      rw [applyAll_cons, ih fun c' hc' => h c' (List.mem_cons_of_mem _ hc')]
      by_cases hkey : c.key = key
      · obtain rfl := h c List.mem_cons_self hkey
        simp [apply, Command.key, Command.act]
      · have hne : Command.delete key ≠ c := fun hc => hkey (hc ▸ rfl)
        simp [apply_of_ne hkey, hne]

end Cells

namespace KeyValue

variable (o : Options) (type : String)

/-- All commands of an eviction, given the related types. -/
def evictAll (types ids : List String) : List Command :=
  (batches o.evictBatch ids).flatMap (evictionBatch o type types)

/-- The related types ever written. -/
def typesOf (m : Cells) : List String := (m (o.relatedTypesKey type)).members.toList

variable {o type}

theorem forall_mem_typesOf {p : String → Prop} {m : Cells} :
    (∀ t ∈ typesOf o type m, p t) ↔ ∀ t ∈ (m (o.relatedTypesKey type)).members, p t := by
  simp only [typesOf, Std.ExtTreeSet.mem_toList]

theorem run_evict (m : Cells) (ids : List String) :
    (evict o type ids).run Cells.respond m =
      (m.applyAll (evictAll o type (typesOf o type m) ids), .ok ()) := by
  have hchunks : ∀ (types : List String) (chunks : List (List String)) (m : Cells)
      (counts : EvictCounts), ∃ counts',
      (Plan.forEach chunks counts (evictChunk o type types)).run Cells.respond m =
        (m.applyAll (chunks.flatMap (evictionBatch o type types)), .ok counts') := by
    intro types chunks
    induction chunks with
    | nil => exact fun m counts => ⟨counts, rfl⟩
    | cons chunk chunks ih =>
        intro m counts
        obtain ⟨counts', hrest⟩ := ih (m.applyAll (evictionBatch o type types chunk)) _
        refine ⟨counts', ?_⟩
        rw [Plan.run_forEach_cons, List.flatMap_cons, Cells.applyAll_append, ← hrest]
        rfl
  unfold evict
  by_cases hempty : ids.isEmpty
  · rw [if_pos hempty, List.isEmpty_iff.1 hempty]
    simp [evictAll]
  · obtain ⟨counts, hrun⟩ := hchunks (typesOf o type m) (batches o.evictBatch ids) m
      { items := ids.length }
    have hscan : (inquire (.scan (o.relatedTypesKey type) none)).run Cells.respond m =
        (m, .ok (m (o.relatedTypesKey type)).members) := rfl
    rw [if_neg hempty, Plan.run_bind, hscan]
    dsimp only
    rw [Plan.run_bind]
    unfold typesOf at hrun ⊢
    rw [hrun]
    rfl

/-! ## Evictions, key by key -/

section Evict

variable {m : Cells} {types ids : List String} {c : Command}

/-- The commands of an eviction. -/
theorem shape_of_mem_evictAll (h : c ∈ evictAll o type types ids) :
    (∃ chunk ⊆ ids, c = .removeMembers (o.membersKey type) chunk) ∨
      (∃ chunk ⊆ ids, c = .removeFields (o.digestsKey type) chunk) ∨
      ∃ id ∈ ids, c = .delete (o.attributesKey type id) ∨
        ∃ related ∈ types, c = .delete (o.relationshipKey type id related) := by
  obtain ⟨chunk, hchunk, h⟩ := List.mem_flatMap.1 h
  have hsub : chunk ⊆ ids := fun id hid => by
    rw [← flatten_batches o.evictBatch ids]
    exact List.mem_flatten_of_mem hchunk hid
  have hmem := (List.mem_filter.1 h).1
  rcases List.mem_cons.1 hmem with rfl | hmem
  · exact .inl ⟨chunk, hsub, rfl⟩
  rcases List.mem_cons.1 hmem with rfl | hmem
  · exact .inr (.inl ⟨chunk, hsub, rfl⟩)
  · obtain ⟨id, hid, hmem⟩ := List.mem_flatMap.1 hmem
    refine .inr (.inr ⟨id, hsub hid, ?_⟩)
    rcases List.mem_cons.1 hmem with rfl | hmem
    · exact .inl rfl
    · obtain ⟨related, hrelated, rfl⟩ := List.mem_map.1 hmem
      exact .inr ⟨related, hrelated, rfl⟩

variable (o type types) in
/-- Every id that is evicted is so everywhere. -/
theorem mem_evictAll {id : String} (h : id ∈ ids) :
    (∃ chunk, id ∈ chunk ∧ .removeMembers (o.membersKey type) chunk ∈ evictAll o type types ids) ∧
      (∃ chunk, id ∈ chunk ∧ .removeFields (o.digestsKey type) chunk ∈ evictAll o type types ids) ∧
      .delete (o.attributesKey type id) ∈ evictAll o type types ids ∧
      ∀ related ∈ types, .delete (o.relationshipKey type id related) ∈ evictAll o type types ids := by
  rw [← flatten_batches o.evictBatch ids] at h
  obtain ⟨chunk, hchunk, hid⟩ := List.mem_flatten.1 h
  have hne : chunk.isEmpty = false := by
    rw [List.isEmpty_eq_false_iff]
    exact List.ne_nil_of_mem hid
  have hbatch : ∀ c, c ∈ .removeMembers (o.membersKey type) chunk ::
      .removeFields (o.digestsKey type) chunk :: chunk.flatMap (evictionCommands o type types) →
      c.isNoop = false → c ∈ evictAll o type types ids := fun c hc hnoop =>
    List.mem_flatMap.2 ⟨chunk, hchunk, List.mem_filter.2 ⟨hc, by rw [hnoop]; rfl⟩⟩
  have hitem : ∀ c ∈ evictionCommands o type types id, c ∈ chunk.flatMap (evictionCommands o type types) :=
    fun c hc => List.mem_flatMap.2 ⟨id, hid, hc⟩
  refine ⟨⟨chunk, hid, hbatch _ (by simp) hne⟩, ⟨chunk, hid, hbatch _ (by simp) hne⟩,
    hbatch _ ?_ rfl, fun related hrelated => hbatch _ ?_ rfl⟩
  · exact List.mem_cons_of_mem _ (List.mem_cons_of_mem _ (hitem _ (by simp [evictionCommands])))
  · refine List.mem_cons_of_mem _ (List.mem_cons_of_mem _ (hitem _ ?_))
    exact List.mem_cons_of_mem _ (List.mem_map.2 ⟨related, hrelated, rfl⟩)

/-- The members without the ids evicted. -/
theorem evict_members (m : Cells) (types ids : List String) :
    (m.applyAll (evictAll o type types ids) (o.membersKey type)).takesMembers =
        (m (o.membersKey type)).takesMembers ∧
      ∀ x, x ∈ (m.applyAll (evictAll o type types ids) (o.membersKey type)).members ↔
        x ∈ (m (o.membersKey type)).members ∧ x ∉ ids := by
  have honly : ∀ c ∈ evictAll o type types ids, c.key = o.membersKey type →
      ∃ xs, c = .removeMembers (o.membersKey type) xs := by
    intro c hc hkey
    rcases shape_of_mem_evictAll hc with ⟨chunk, -, rfl⟩ | ⟨chunk, -, rfl⟩ | ⟨id, -, rfl | ⟨r, -, rfl⟩⟩
    · exact ⟨chunk, rfl⟩
    · exact absurd hkey (Slot.key_ne .digests .members)
    · exact absurd hkey (Slot.key_ne (.attributes id) .members)
    · exact absurd hkey (Slot.key_ne (.related id r) .members)
  obtain ⟨htakes, hmem⟩ := Cells.members_applyAll honly
  refine ⟨htakes, fun x => (hmem x).trans (and_congr_right fun _ => ⟨fun h hx => ?_, fun h xs hxs hx => ?_⟩)⟩
  · obtain ⟨⟨chunk, hid, hchunk⟩, -⟩ := mem_evictAll o type types hx
    exact h chunk hchunk hid
  · rcases shape_of_mem_evictAll hxs with ⟨chunk, hsub, hc⟩ | ⟨chunk, -, hc⟩ | ⟨id, -, hc | ⟨r, -, hc⟩⟩
    · obtain ⟨-, rfl⟩ := Command.removeMembers.inj hc
      exact h (hsub hx)
    all_goals contradiction

/-- The digests without those of the ids evicted. -/
theorem evict_digests (m : Cells) (types ids : List String) :
    (m.applyAll (evictAll o type types ids) (o.digestsKey type)).takesFields =
        (m (o.digestsKey type)).takesFields ∧
      ∀ id d, (m.applyAll (evictAll o type types ids) (o.digestsKey type)).field? id = some d ↔
        (m (o.digestsKey type)).field? id = some d ∧ id ∉ ids := by
  have honly : ∀ c ∈ evictAll o type types ids, c.key = o.digestsKey type →
      ∃ fields, c = .removeFields (o.digestsKey type) fields := by
    intro c hc hkey
    rcases shape_of_mem_evictAll hc with ⟨chunk, -, rfl⟩ | ⟨chunk, -, rfl⟩ | ⟨id, -, rfl | ⟨r, -, rfl⟩⟩
    · exact absurd hkey (Slot.key_ne .members .digests)
    · exact ⟨chunk, rfl⟩
    · exact absurd hkey (Slot.key_ne (.attributes id) .digests)
    · exact absurd hkey (Slot.key_ne (.related id r) .digests)
  obtain ⟨htakes, hfield⟩ := Cells.field?_applyAll honly
  refine ⟨htakes, fun id d => (hfield id d).trans
    (and_congr_right fun _ => ⟨fun h hid => ?_, fun h fields hfields hid => ?_⟩)⟩
  · obtain ⟨-, ⟨chunk, hmem, hchunk⟩, -⟩ := mem_evictAll o type types hid
    exact h chunk hchunk hmem
  · rcases shape_of_mem_evictAll hfields with ⟨chunk, -, hc⟩ | ⟨chunk, hsub, hc⟩ | ⟨id', -, hc | ⟨r, -, hc⟩⟩
    · contradiction
    · obtain ⟨-, rfl⟩ := Command.removeFields.inj hc
      exact h (hsub hid)
    all_goals contradiction

/-- The attributes of the ids evicted are gone. -/
theorem evict_attributes (m : Cells) (types ids : List String) (id : String) :
    m.applyAll (evictAll o type types ids) (o.attributesKey type id) =
      if id ∈ ids then {} else m (o.attributesKey type id) := by
  have honly : ∀ c ∈ evictAll o type types ids, c.key = o.attributesKey type id →
      id ∈ ids ∧ c = .delete (o.attributesKey type id) := by
    intro c hc hkey
    rcases shape_of_mem_evictAll hc with ⟨chunk, -, rfl⟩ | ⟨chunk, -, rfl⟩ | ⟨id', hid', rfl | ⟨r, -, rfl⟩⟩
    · exact absurd hkey (Slot.key_ne .members (.attributes id))
    · exact absurd hkey (Slot.key_ne .digests (.attributes id))
    · obtain rfl : id' = id := attributesKey_inj.1 hkey
      exact ⟨hid', rfl⟩
    · exact absurd hkey (Slot.key_ne (.related id' r) (.attributes id))
  rw [Cells.applyAll_delete fun c hc hkey => (honly c hc hkey).2]
  refine if_congr ⟨fun h => (honly _ h rfl).1, fun h => ?_⟩ rfl rfl
  exact (mem_evictAll o type types h).2.2.1

/-- The related ids of the ids evicted are gone, as far as their types are known. -/
theorem evict_related {related : String} (hplain : Plain related) (htypes : ∀ t ∈ types, Plain t)
    (m : Cells) (ids : List String) (id : String) :
    m.applyAll (evictAll o type types ids) (o.relationshipKey type id related) =
      if id ∈ ids ∧ related ∈ types then {} else m (o.relationshipKey type id related) := by
  have honly : ∀ c ∈ evictAll o type types ids, c.key = o.relationshipKey type id related →
      (id ∈ ids ∧ related ∈ types) ∧ c = .delete (o.relationshipKey type id related) := by
    intro c hc hkey
    rcases shape_of_mem_evictAll hc with ⟨chunk, -, rfl⟩ | ⟨chunk, -, rfl⟩ | ⟨id', hid', rfl | ⟨r, hr, rfl⟩⟩
    · exact absurd hkey (Slot.key_ne .members (.related id related))
    · exact absurd hkey (Slot.key_ne .digests (.related id related))
    · exact absurd hkey (Slot.key_ne (.attributes id') (.related id related))
    · obtain ⟨rfl, rfl⟩ := Slot.eq_of_related_key_eq o type (htypes r hr) hplain hkey
      exact ⟨⟨hid', hr⟩, rfl⟩
  rw [Cells.applyAll_delete fun c hc hkey => (honly c hc hkey).2]
  refine if_congr ⟨fun h => (honly _ h rfl).1, fun h => ?_⟩ rfl rfl
  exact (mem_evictAll o type types h.1).2.2.2 related h.2

/-- The set of related types stays as it is. -/
theorem evict_relatedTypes (m : Cells) (types ids : List String) :
    m.applyAll (evictAll o type types ids) (o.relatedTypesKey type) = m (o.relatedTypesKey type) := by
  refine Cells.applyAll_of_forall_ne fun c hc => ?_
  rcases shape_of_mem_evictAll hc with ⟨chunk, -, rfl⟩ | ⟨chunk, -, rfl⟩ | ⟨id, -, rfl | ⟨r, -, rfl⟩⟩
  · exact Slot.key_ne .members .relatedTypes
  · exact Slot.key_ne .digests .relatedTypes
  · exact Slot.key_ne (.attributes id) .relatedTypes
  · exact Slot.key_ne (.related id r) .relatedTypes

/-- Keys of other types stay as they are. -/
theorem evict_other {key : String} (h : ∀ slot : Slot, key ≠ slot.key o type) (m : Cells)
    (types ids : List String) : m.applyAll (evictAll o type types ids) key = m key := by
  refine Cells.applyAll_of_forall_ne fun c hc hkey => ?_
  rcases shape_of_mem_evictAll hc with ⟨chunk, -, rfl⟩ | ⟨chunk, -, rfl⟩ | ⟨id, -, rfl | ⟨r, -, rfl⟩⟩
  · exact h .members hkey.symm
  · exact h .digests hkey.symm
  · exact h (.attributes id) hkey.symm
  · exact h (.related id r) hkey.symm

end Evict

/-! ## Removed references -/

variable (o type) in
/-- The batch that removes related ids from the sets of a chunk. -/
def unlinkBatch (related : String) (targets chunk : List String) : List Command :=
  chunk.map fun id => .removeMembers (o.relationshipKey type id related) targets

variable (o type) in
/-- All commands that remove related ids. -/
def unlinkAll (ids : List String) (related : String) (targets : List String) : List Command :=
  if targets.isEmpty then []
  else ids.map fun id => .removeMembers (o.relationshipKey type id related) targets

theorem unlinkAll_of_not_isEmpty {targets : List String} (h : targets.isEmpty = false)
    (ids : List String) (related : String) :
    unlinkAll o type ids related targets =
      (batches o.mergeBatch ids).flatMap (unlinkBatch o type related targets) := by
  have hbatches : (batches o.mergeBatch ids).flatMap (unlinkBatch o type related targets) =
      unlinkBatch o type related targets (batches o.mergeBatch ids).flatten :=
    List.map_flatten.symm
  rw [hbatches, flatten_batches, unlinkAll, h]
  rfl

theorem run_unlink (m : Cells) (ids : List String) (related : String) (targets : List String) :
    (unlink o type ids related targets).run Cells.respond m =
      (m.applyAll (unlinkAll o type ids related targets), .ok ()) := by
  have hchunks : ∀ (chunks : List (List String)) (m : Cells),
      (Plan.forEach chunks () fun _ chunk =>
        commit (unlinkBatch o type related targets chunk)).run Cells.respond m =
        (m.applyAll (chunks.flatMap (unlinkBatch o type related targets)), .ok ()) := by
    intro chunks
    induction chunks with
    | nil => exact fun m => rfl
    | cons chunk chunks ih =>
        intro m
        rw [Plan.run_forEach_cons, List.flatMap_cons, Cells.applyAll_append, ← ih]
        rfl
  unfold unlink
  by_cases htargets : targets.isEmpty
  · rw [htargets, Bool.or_true, if_pos rfl, unlinkAll, if_pos htargets]
    rfl
  · rw [Bool.not_eq_true] at htargets
    rw [unlinkAll_of_not_isEmpty htargets]
    by_cases hids : ids.isEmpty
    · rw [hids, Bool.true_or, if_pos rfl, List.isEmpty_iff.1 hids, batches_nil]
      rfl
    · rw [if_neg (by simp [hids, htargets])]
      exact hchunks (batches o.mergeBatch ids) m

theorem shape_of_mem_unlinkAll {ids targets : List String} {related : String} {c : Command}
    (h : c ∈ unlinkAll o type ids related targets) :
    ∃ id ∈ ids, c = .removeMembers (o.relationshipKey type id related) targets := by
  unfold unlinkAll at h
  split at h
  · simp at h
  · obtain ⟨id, hid, rfl⟩ := List.mem_map.1 h
    exact ⟨id, hid, rfl⟩

/-- The related ids without those removed. -/
theorem unlink_related {related related' : String} (hplain : Plain related) (hplain' : Plain related')
    (m : Cells) (ids targets : List String) (id : String) :
    (m.applyAll (unlinkAll o type ids related targets) (o.relationshipKey type id related')).takesMembers =
        (m (o.relationshipKey type id related')).takesMembers ∧
      ∀ x, x ∈ (m.applyAll (unlinkAll o type ids related targets)
          (o.relationshipKey type id related')).members ↔
        x ∈ (m (o.relationshipKey type id related')).members ∧
          ¬ (id ∈ ids ∧ related' = related ∧ x ∈ targets) := by
  have honly : ∀ c ∈ unlinkAll o type ids related targets, c.key = o.relationshipKey type id related' →
      (id ∈ ids ∧ related' = related) ∧ c = .removeMembers (o.relationshipKey type id related') targets := by
    intro c hc hkey
    obtain ⟨id', hid', rfl⟩ := shape_of_mem_unlinkAll hc
    obtain ⟨rfl, rfl⟩ := Slot.eq_of_related_key_eq o type hplain hplain' hkey
    exact ⟨⟨hid', rfl⟩, rfl⟩
  obtain ⟨htakes, hmem⟩ := Cells.members_applyAll fun c hc hkey => ⟨targets, (honly c hc hkey).2⟩
  refine ⟨htakes, fun x => (hmem x).trans (and_congr_right fun _ => ⟨fun h => ?_, fun h xs hxs hx => ?_⟩)⟩
  · rintro ⟨hid, rfl, hx⟩
    refine h targets ?_ hx
    rw [unlinkAll, if_neg (by simpa using List.ne_nil_of_mem hx)]
    exact List.mem_map.2 ⟨id, hid, rfl⟩
  · obtain ⟨⟨hid, hrelated⟩, hc⟩ := honly _ hxs rfl
    obtain ⟨-, rfl⟩ := Command.removeMembers.inj hc
    exact h ⟨hid, hrelated, hx⟩

/-- Nothing else changes when related ids are removed. -/
theorem unlink_other {key : String} {related : String}
    (h : ∀ id, key ≠ o.relationshipKey type id related) (m : Cells) (ids targets : List String) :
    m.applyAll (unlinkAll o type ids related targets) key = m key := by
  refine Cells.applyAll_of_forall_ne fun c hc hkey => ?_
  obtain ⟨id, -, rfl⟩ := shape_of_mem_unlinkAll hc
  exact h id hkey.symm

/-- Of the keys of their type, only those of related ids change. -/
theorem unlink_slot (slot : Slot) (m : Cells) (ids : List String) (related : String)
    (targets : List String) (h : slot.kind ≠ (Slot.related "" "").kind := by simp [Slot.kind]) :
    m.applyAll (unlinkAll o type ids related targets) (slot.key o type) = m (slot.key o type) :=
  unlink_other (fun id => Slot.key_ne slot (.related id related) h) m ids targets

end KeyValue

end Inventory
