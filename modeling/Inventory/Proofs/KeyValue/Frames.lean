import Inventory.Proofs.KeyValue.Chunks

/-!
# Inventory.Proofs.KeyValue.Frames

What writing an entity does besides its attributes, key by key.

The id joins the members, the related types of which there are ids join their set, and each written
set of related ids is joined or replaced. Nothing of this depends on what other keys hold, and doing it
again after a part of it has been done comes to the same (`putFrames_again`).
-/

namespace Inventory.KeyValue

variable (o : Options) (mode : WriteMode) (type : String)

/-! ## Related ids -/

/-- What writing related ids makes of their cell. -/
def relatedCell (ids : StringSet) (ttl : Option UInt64) (c : Cell) : Cell :=
  let base := if mode = .replace then {} else c
  if ids.isEmpty then base else base.gain ids.toList ttl

variable {o mode type}

theorem applyAll_relatedCommands (m : Cells) (e : Entity) (related : String) (ids : StringSet)
    (key : String) :
    m.applyAll (relatedCommands o mode type e related ids) key =
      if o.relationshipKey type e.id related = key then relatedCell mode ids e.ttl (m key)
      else m key := by
  have hdelete : m.applyAll (if mode = .replace then [.delete (o.relationshipKey type e.id related)]
      else []) key =
      if o.relationshipKey type e.id related = key then (if mode = .replace then {} else m key)
      else m key := by
    cases mode with
    | union => simp
    | replace => rfl
  unfold relatedCommands relatedCell
  rw [Cells.applyAll_append]
  by_cases hempty : ids.isEmpty
  · simp only [if_pos hempty, Cells.applyAll_nil, hdelete]
  · simp only [if_neg hempty, Cells.applyAll_cons, applyAll_expiry, Cells.apply, hdelete, Command.key]
    by_cases hkey : o.relationshipKey type e.id related = key
    · simp only [if_pos hkey, Command.act_addMembers, Cell.expiring_gain]
    · simp only [if_neg hkey]

theorem relationshipKey_inj {id related related' : String} :
    o.relationshipKey type id related = o.relationshipKey type id related' ↔ related = related' :=
  ⟨Slot.related_key_inj o type, fun h => h ▸ rfl⟩

theorem applyAll_relationships (m : Cells) (e : Entity) (related : String) :
    m.applyAll (relationshipCommands o mode type e) (o.relationshipKey type e.id related) =
      match e.relationships[related]? with
      | some ids => relatedCell mode ids e.ttl (m (o.relationshipKey type e.id related))
      | none => m (o.relationshipKey type e.id related) := by
  rw [relationshipCommands, Cells.applyAll_flatMap]
  have hfold := StringMap.foldl_at (fun (m : Cells) related => m (o.relationshipKey type e.id related))
    (fun _ ids c => relatedCell mode ids e.ttl c)
    (fun m related ids => m.applyAll (relatedCommands o mode type e related ids))
    (fun m related ids related' => by
      simp only [applyAll_relatedCommands, relationshipKey_inj]) e.relationships m related
  rw [Std.ExtTreeMap.foldl_eq_foldl_toList] at hfold
  cases h : e.relationships[related]? with
  | none => rwa [h] at hfold
  | some ids => rwa [h] at hfold

variable (mode) in
theorem relatedCell_members (ids : StringSet) (ttl : Option UInt64) {c : Cell} (h : c.takesMembers) :
    (relatedCell mode ids ttl c).takesMembers ∧
      (relatedCell mode ids ttl c).members =
        if mode = .replace then ids else c.members ∪ ids := by
  unfold relatedCell
  have hbase : ∀ base : Cell, base.takesMembers →
      (if ids.isEmpty then base else base.gain ids.toList ttl).takesMembers ∧
        (if ids.isEmpty then base else base.gain ids.toList ttl).members = base.members ∪ ids := by
    intro base hbase
    by_cases hempty : ids.isEmpty
    · rw [if_pos hempty, Std.ExtTreeSet.isEmpty_iff.1 hempty]
      exact ⟨hbase, Std.ExtTreeSet.ext_mem fun x => by simp [Std.ExtTreeSet.mem_union_iff]⟩
    · rw [if_neg hempty]
      refine ⟨Cell.takesMembers_gain.trans hbase, Std.ExtTreeSet.ext_mem fun x => ?_⟩
      rw [Cell.mem_members_gain hbase, Std.ExtTreeSet.mem_union_iff, Std.ExtTreeSet.mem_toList]
  cases mode with
  | union => exact hbase c h
  | replace =>
      obtain ⟨htakes, hmembers⟩ := hbase {} rfl
      refine ⟨htakes, hmembers.trans (Std.ExtTreeSet.ext_mem fun x => ?_)⟩
      rw [Std.ExtTreeSet.mem_union_iff]
      simp [Cell.members]

/-! ## The index -/

theorem applyAll_relationships_of_ne {m : Cells} {e : Entity} {key : String}
    (h : ∀ related, key ≠ o.relationshipKey type e.id related) :
    m.applyAll (relationshipCommands o mode type e) key = m key := by
  refine Cells.applyAll_of_forall_ne fun c hc hkey => ?_
  obtain ⟨related, -, hc⟩ := key_of_mem_relationshipCommands hc
  exact h related (hkey.symm.trans hc)

variable (o mode type) in
theorem applyAll_frame_members (m : Cells) (e : Entity) :
    m.applyAll (frame o mode type e) (o.membersKey type) = (m (o.membersKey type)).add [e.id] := by
  have hne : ∀ related, o.membersKey type ≠ o.relationshipKey type e.id related := fun related =>
    Slot.key_ne .members (.related e.id related)
  rw [frame, Cells.applyAll_append, applyAll_relationships_of_ne hne, applyAll_indexCommands,
    if_pos rfl]
  rfl

theorem applyAll_frame_relatedTypes (m : Cells) (e : Entity) :
    m.applyAll (frame o mode type e) (o.relatedTypesKey type) =
      (m (o.relatedTypesKey type)).add (relatedTypes e) := by
  have hne : ∀ related, o.relatedTypesKey type ≠ o.relationshipKey type e.id related :=
    fun related => Slot.key_ne .relatedTypes (.related e.id related)
  have hmembers : o.relatedTypesKey type ≠ o.membersKey type :=
    Slot.key_ne .relatedTypes .members
  rw [frame, Cells.applyAll_append, applyAll_relationships_of_ne hne, applyAll_indexCommands,
    if_neg hmembers, if_pos rfl]
  exact Cell.add_congr fun x => by simp [chunkTypes]

theorem applyAll_frame_related (m : Cells) (e : Entity) (related : String) :
    m.applyAll (frame o mode type e) (o.relationshipKey type e.id related) =
      match e.relationships[related]? with
      | some ids => relatedCell mode ids e.ttl (m (o.relationshipKey type e.id related))
      | none => m (o.relationshipKey type e.id related) := by
  have hindex : m.applyAll (indexCommands o type [e]) (o.relationshipKey type e.id related) =
      m (o.relationshipKey type e.id related) := by
    refine Cells.applyAll_of_forall_ne fun c hc hkey => ?_
    rcases key_of_mem_indexCommands hc with h | h <;>
      exact Slot.key_ne _ (.related e.id related) (by simp [Slot.kind]) (h.symm.trans hkey)
  rw [frame, Cells.applyAll_append, applyAll_relationships, hindex]

/-- The ids of all entities written join the members. -/
theorem members_putFrames (m : Cells) (es : List Entity) (h : (m (o.membersKey type)).takesMembers) :
    (putFrames o mode type m es (o.membersKey type)).takesMembers ∧
      ∀ x, x ∈ (putFrames o mode type m es (o.membersKey type)).members ↔
        x ∈ (m (o.membersKey type)).members ∨ x ∈ es.map Entity.id := by
  induction es generalizing m with
  | nil => exact ⟨h, fun x => by simp [putFrames]⟩
  | cons e es ih =>
      have hstep := applyAll_frame_members o mode type m e
      obtain ⟨htakes, hmem⟩ := ih (m.applyAll (frame o mode type e)) (by rwa [hstep, Cell.takesMembers_add])
      refine ⟨htakes, fun x => (hmem x).trans ?_⟩
      rw [hstep, Cell.mem_members_add h]
      simp [or_assoc]

/-! ## Again -/

variable (o mode type) in
/-- What the frame of an entity makes of the cell under a key. -/
def frameCell (key : String) (c : Cell) (e : Entity) : Cell :=
  Cells.applyAll (fun _ => c) (frame o mode type e) key

theorem applyAll_frame (m : Cells) (e : Entity) (key : String) :
    m.applyAll (frame o mode type e) key = frameCell o mode type key (m key) e := by
  rw [frameCell, Cells.applyAll_eq_foldl, Cells.applyAll_eq_foldl]

theorem putFrames_at (m : Cells) (es : List Entity) (key : String) :
    putFrames o mode type m es key = es.foldl (frameCell o mode type key) (m key) := by
  induction es generalizing m with
  | nil => rfl
  | cons e es ih =>
      rw [List.foldl_cons, ← applyAll_frame]
      exact ih _

/-- A change of a cell that does nothing, puts a certain cell there, or adds to what is there. -/
inductive Touch (f : Cell → Cell) : Prop where
  | nothing (h : ∀ c, f c = c)
  | puts (d : Cell) (h : ∀ c, f c = d)
  | adds (members : List String) (ttl : Option UInt64) (h : ∀ c, f c = c.gain members ttl)

theorem touch_add (members : List String) : Touch fun c => c.add members := by
  by_cases h : members.isEmpty
  · exact .nothing fun c => if_pos h
  · exact .adds members none fun c => if_neg h

theorem touch_relatedCell (ids : StringSet) (ttl : Option UInt64) :
    Touch fun c => relatedCell mode ids ttl c := by
  unfold relatedCell
  cases mode with
  | replace => exact .puts (if ids.isEmpty then {} else Cell.gain ids.toList ttl {}) fun c => rfl
  | union =>
      by_cases h : ids.isEmpty
      · exact .nothing fun c => by simp [h]
      · exact .adds ids.toList ttl fun c => by simp [h]

variable (o mode type) in
/-- The frame of an entity enters it into the index or writes related ids of it. -/
theorem frameCell_cases (key : String) (e : Entity) :
    (∃ xs, ∀ c, frameCell o mode type key c e = c.add xs) ∨
      ∃ ids, ∀ c, frameCell o mode type key c e = relatedCell mode ids e.ttl c := by
  unfold frameCell
  by_cases hmembers : key = o.membersKey type
  · subst hmembers
    exact .inl ⟨[e.id], fun c => applyAll_frame_members o mode type _ e⟩
  · by_cases htypes : key = o.relatedTypesKey type
    · subst htypes
      exact .inl ⟨relatedTypes e, fun c => applyAll_frame_relatedTypes _ e⟩
    · by_cases hrelated : ∃ related, key = o.relationshipKey type e.id related
      · obtain ⟨related, rfl⟩ := hrelated
        simp only [applyAll_frame_related]
        cases e.relationships[related]? with
        | none => exact .inl ⟨[], fun c => rfl⟩
        | some ids => exact .inr ⟨ids, fun c => rfl⟩
      · exact .inl ⟨[], fun c => applyAll_frame_other hmembers htypes (not_exists.1 hrelated)⟩

theorem touch_frameCell (key : String) (e : Entity) :
    Touch fun c => frameCell o mode type key c e := by
  obtain ⟨xs, h⟩ | ⟨ids, h⟩ := frameCell_cases o mode type key e
  · simp only [h]
    exact touch_add xs
  · simp only [h]
    exact touch_relatedCell ids e.ttl

/-- A change that was made before another one and is made after it might as well have been made after
it only. -/
theorem Touch.again {f g : Cell → Cell} (hf : Touch f) (hg : Touch g) (c : Cell) :
    f (g (f c)) = f (g c) := by
  cases hf with
  | nothing h => rw [h c]
  | puts d h => rw [h, h]
  | adds xs t h =>
      cases hg with
      | nothing h' =>
          rw [h', h', h, h, Cell.gain_self]
      | puts d h' => rw [h', h']
      | adds ys u h' => rw [h, h, h', h', h, Cell.gain_gain_gain]

/-- Frames of which some have been written already can be written from the start. -/
theorem putFrames_again {es part : List Entity} (h : part <+: es) {m m' : Cells} {key : String}
    (hpart : m' key = putFrames o mode type m part key) :
    putFrames o mode type m' es key = putFrames o mode type m es key := by
  rw [putFrames_at, putFrames_at, hpart, putFrames_at]
  refine foldl_of_isPrefix (fun c e => ?_) (fun c e e' => ?_) h (m key)
  · exact (touch_frameCell key e).again (.nothing fun _ => rfl) c
  · exact (touch_frameCell key e).again (touch_frameCell key e') c

end Inventory.KeyValue
