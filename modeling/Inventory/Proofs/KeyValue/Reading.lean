import Inventory.Cache.KeyValue.Read
import Inventory.Proofs.Collections
import Inventory.Proofs.Store.Cells
import Mathlib.Logic.Basic

/-!
# Inventory.Proofs.KeyValue.Reading

What reads return, as a function of the cells.

However a read is cut into requests, its answer is that of one look at every cell (`run_read`). It
sees the attributes and the members in each cell and nothing else, so cells that look the same
(`Cells.SameReads`) are read alike.
-/

namespace Inventory

/-- The attributes in a cell, empty if there is no blob. -/
def Cell.attributes (c : Cell) : Except Error Attributes :=
  match c.blob? with
  | some blob => Blob.decode blob
  | none => .ok []

theorem Cell.attributes_of_value {c : Cell} {blob : Bytes} (h : c.value = some (.blob blob)) :
    c.attributes = Blob.decode blob := by
  simp [attributes, blob?, h]

/-- Two stores show the same attributes and the same members under each key. -/
def Cells.SameReads (m m' : Cells) : Prop :=
  ∀ key, (m key).attributes = (m' key).attributes ∧ (m key).members = (m' key).members

namespace KeyValue

variable (o : Options) (type : String)

/-! ## The answers -/

/-- The members under the key of the ids. -/
def members (m : Cells) : StringSet := (m (o.membersKey type)).members

/-- The members that are asked for, in the order of the answer. -/
def presentIds (m : Cells) : Option (List String) → List String
  | some ids => (firstOccurrences ids).filter (members o type m).contains
  | none => (members o type m).toList

/-- The related ids of an entity in some types. -/
def relationshipsAt (m : Cells) (types : List String) (id : String) : Relationships :=
  .ofList ((types.map fun related => (related, (m (o.relationshipKey type id related)).members)).filter
    fun p => !p.2.isEmpty)

/-- The entity under the keys of an id. -/
def entityAt (m : Cells) (types : List String) (id : String) : Except Error Entity := do
  let attributes ← (m (o.attributesKey type id)).attributes
  return { id, attributes, relationships := relationshipsAt o type m types id }

/-- What is answered to a read. -/
def readReply (o : Options) (m : Cells) : (r : CacheRequest) → Except Error r.Reply
  | .entities type ids filter =>
    (presentIds o type m ids).mapM (entityAt o type m
      (NameFilter.select filter (m (o.relatedTypesKey type)).members.toList))
  | .identifiers type => .ok (members o type m)
  | .matching type glob => do
    let pattern ← Glob.compile glob
    return (members o type m).filter (Glob.isMatch pattern)
  | .existing type ids => .ok (.ofList (ids.filter (members o type m).contains))
  | .write .. | .evict .. | .unlink .. => .ok ()

/-! ## Entities -/

variable {o type} {m : Cells}

/-- The related ids of an entity are those under their keys, if their types are looked for. -/
theorem getElem?_relationshipsAt (types : List String) (id related : String) :
    (relationshipsAt o type m types id)[related]? =
      if related ∈ types ∧ (m (o.relationshipKey type id related)).members.isEmpty = false then
        some (m (o.relationshipKey type id related)).members
      else none := by
  rw [relationshipsAt, Std.ExtTreeMap.ofList_eq_insertMany_empty,
    StringMap.getElem?_insertMany_of_forall (f := fun related =>
      some (m (o.relationshipKey type id related)).members), Std.ExtTreeMap.getElem?_empty]
  · refine if_congr ?_ rfl rfl
    rw [List.mem_map]
    constructor
    · rintro ⟨p, hp, rfl⟩
      obtain ⟨hp, hne⟩ := List.mem_filter.1 hp
      obtain ⟨related, hrelated, rfl⟩ := List.mem_map.1 hp
      exact ⟨hrelated, by simpa using hne⟩
    · rintro ⟨hrelated, hne⟩
      exact ⟨_, List.mem_filter.2 ⟨List.mem_map.2 ⟨related, hrelated, rfl⟩, by simp [hne]⟩, rfl⟩
  · intro p hp
    obtain ⟨related, -, rfl⟩ := List.mem_map.1 (List.mem_filter.1 hp).1
    rfl

theorem run_readSets (keys : List String) :
    ∃ requests, (readSets o keys).run Cells.respond m =
      (m, .ok (keys.map fun key => (m key).members, requests)) := by
  have hchunks : ∀ (chunks : List (List String)) (sets : List StringSet) (n : Nat), ∃ requests,
      (Plan.forEach chunks (sets, n) fun found chunk => do
        let more ← inquire (.sets chunk)
        return (found.1 ++ more, found.2 + 1)).run Cells.respond m =
          (m, .ok (sets ++ chunks.flatten.map fun key => (m key).members, requests)) := by
    intro chunks
    induction chunks with
    | nil => exact fun sets n => ⟨n, by simp⟩
    | cons chunk chunks ih =>
        intro sets n
        obtain ⟨requests, hrest⟩ := ih (sets ++ chunk.map fun key => (m key).members) (n + 1)
        refine ⟨requests, ?_⟩
        rw [Plan.run_forEach_cons, Plan.run_bind]
        refine hrest.trans ?_
        simp
  obtain ⟨requests, hrun⟩ := hchunks (batches o.getBatch keys) [] 0
  rw [flatten_batches] at hrun
  exact ⟨requests, hrun⟩

/-- Blobs and sets read for some ids are put together to the entities of those ids. -/
theorem assemble_eq (types ids : List String) :
    assemble types ids (ids.map fun id => (m (o.attributesKey type id)).blob?)
      ((ids.flatMap fun id => types.map (o.relationshipKey type id)).map fun key => (m key).members) =
      ids.mapM (entityAt o type m types) := by
  induction ids with
  | nil => rfl
  | cons id ids ih =>
      have hsets : (types.map fun related => (m (o.relationshipKey type id related)).members).length =
          types.length := List.length_map _
      have hzip : ∀ rest, types.zip ((types.map fun related =>
          (m (o.relationshipKey type id related)).members) ++ rest) =
          types.map fun related => (related, (m (o.relationshipKey type id related)).members) := by
        intro rest
        rw [List.map_prod_left_eq_zip, ← List.append_nil types, List.zip_append (by simp)]
        simp
      have hdrop : ∀ rest, ((types.map fun related =>
          (m (o.relationshipKey type id related)).members) ++ rest).drop types.length = rest :=
        fun rest => List.drop_left' hsets
      simp only [List.mapM_cons, List.map_cons, List.flatMap_cons, List.map_append, List.map_map,
        Function.comp_def, assemble, hzip, hdrop, ih, entityAt, Cell.attributes, relationshipsAt]
      cases (m (o.attributesKey type id)).blob? with
      | none => rfl
      | some blob =>
          dsimp only
          cases Blob.decode blob <;> rfl

variable (o type m) in
theorem run_readChunk (types chunk : List String) (found : List Entity) (counts : GetCounts) :
    ∃ counts', (readChunk o type types (found, counts) chunk).run Cells.respond m =
      (m, (chunk.mapM (entityAt o type m types)).map fun es => (found ++ es, counts')) := by
  obtain ⟨requests, hsets⟩ := run_readSets (o := o) (m := m)
    (chunk.flatMap fun id => types.map (o.relationshipKey type id))
  have hblobs : (inquire (.blobs (chunk.map (o.attributesKey type)))).run Cells.respond m =
      (m, .ok (chunk.map fun id => (m (o.attributesKey type id)).blob?)) := by
    change (m, Except.ok _) = _
    rw [List.map_map]
    rfl
  unfold readChunk
  dsimp only
  rw [Plan.run_bind, hblobs]
  dsimp only
  rw [Plan.run_bind, hsets]
  dsimp only
  rw [Plan.run_bind, Plan.run_ofExcept, assemble_eq]
  cases chunk.mapM (entityAt o type m types) with
  | ok es => exact ⟨_, rfl⟩
  | error e => exact ⟨counts, rfl⟩

variable (o type m) in
theorem run_hydrate (ids : List String) (filter : Option NameFilter) :
    ∃ counts, (hydrate o type ids filter).run Cells.respond m =
      (m, (ids.mapM (entityAt o type m (NameFilter.select filter
        (m (o.relatedTypesKey type)).members.toList))).map fun es => (es, counts)) := by
  let types := NameFilter.select filter (m (o.relatedTypesKey type)).members.toList
  have hchunks : ∀ (chunks : List (List String)) (found : List Entity) (counts : GetCounts),
      ∃ counts', (Plan.forEach chunks (found, counts) (readChunk o type types)).run Cells.respond m =
        (m, (chunks.flatten.mapM (entityAt o type m types)).map fun es => (found ++ es, counts')) := by
    intro chunks
    induction chunks with
    | nil => exact fun found counts => ⟨counts, by simp [Except.map, pure, Except.pure]⟩
    | cons chunk chunks ih =>
        intro found counts
        obtain ⟨counts₁, hchunk⟩ := run_readChunk o type m types chunk found counts
        rw [Plan.run_forEach_cons, hchunk, List.flatten_cons, List.mapM_append]
        cases chunk.mapM (entityAt o type m types) with
        | error e => exact ⟨counts, rfl⟩
        | ok es =>
            obtain ⟨counts₂, hrest⟩ := ih (found ++ es) counts₁
            refine ⟨counts₂, hrest.trans ?_⟩
            cases chunks.flatten.mapM (entityAt o type m types) <;>
              simp [Except.map, bind, Except.bind, pure, Except.pure]
  obtain ⟨counts, hrun⟩ := hchunks (batches o.getBatch ids) [] { relationshipNames := types.length }
  rw [flatten_batches] at hrun
  exact ⟨counts, hrun⟩

theorem run_existing (ids : List String) :
    (existing o type ids).run Cells.respond m =
      (m, .ok (.ofList (ids.filter (members o type m).contains))) := by
  have hflags : ∀ chunk : List String,
      ((chunk.zip (chunk.map (members o type m).contains)).filter Prod.snd).map Prod.fst =
        chunk.filter (members o type m).contains := by
    intro chunk
    rw [← List.map_prod_left_eq_zip, List.filter_map, List.map_map]
    exact List.map_id _
  have hchunks : ∀ (chunks : List (List String)) (found : StringSet),
      (Plan.forEach chunks found fun found chunk => do
        let flags ← inquire (.contains (o.membersKey type) chunk)
        return found.insertMany (((chunk.zip flags).filter Prod.snd).map Prod.fst)).run
          Cells.respond m =
        (m, .ok (found.insertMany (chunks.flatten.filter (members o type m).contains))) := by
    intro chunks
    induction chunks with
    | nil => exact fun found => by simp
    | cons chunk chunks ih =>
        intro found
        have hinsert : ∀ xs ys : List String,
            (found.insertMany xs).insertMany ys = found.insertMany (xs ++ ys) := fun xs ys =>
          Std.ExtTreeSet.ext_mem fun x => by simp [or_assoc]
        rw [Plan.run_forEach_cons, Plan.run_bind, List.flatten_cons, List.filter_append, ← hinsert,
          ← hflags]
        exact ih _
  refine (hchunks (batches o.getBatch ids) ∅).trans ?_
  rw [flatten_batches, Std.ExtTreeSet.ofList_eq_insertMany_empty]

variable (o type m) in
theorem run_locate (ids : Option (List String)) :
    ∃ requested,
      (locate o type ids).run Cells.respond m = (m, .ok (requested, presentIds o type m ids)) := by
  cases ids with
  | none => exact ⟨_, rfl⟩
  | some ids =>
      refine ⟨(firstOccurrences ids).length, ?_⟩
      have hfilter : (firstOccurrences ids).filter
          (Std.ExtTreeSet.ofList ((firstOccurrences ids).filter (members o type m).contains) :
            StringSet).contains = (firstOccurrences ids).filter (members o type m).contains := by
        refine List.filter_congr fun id hid => ?_
        rw [Bool.eq_iff_iff, Std.ExtTreeSet.contains_iff_mem, Std.ExtTreeSet.mem_ofList]
        simp [hid]
      unfold locate
      dsimp only
      rw [Plan.run_bind, run_existing]
      dsimp only
      rw [hfilter]
      rfl

theorem run_entities (ids : Option (List String)) (filter : Option NameFilter) :
    (entities o type ids filter).run Cells.respond m =
      (m, readReply o m (.entities type ids filter)) := by
  obtain ⟨requested, hlocate⟩ := run_locate o type m ids
  obtain ⟨counts, hhydrate⟩ := run_hydrate o type m (presentIds o type m ids) filter
  unfold entities
  rw [Plan.run_bind, hlocate]
  dsimp only
  by_cases hempty : (presentIds o type m ids).isEmpty
  · rw [if_pos hempty, readReply, List.isEmpty_iff.1 hempty]
    rfl
  · rw [if_neg hempty, Plan.run_bind, hhydrate, readReply]
    generalize (presentIds o type m ids).mapM (m := Except Error) _ = found
    cases found <;> rfl

theorem run_matching (glob : String) :
    (matching o type glob).run Cells.respond m = (m, readReply o m (.matching type glob)) := by
  unfold matching
  simp only [readReply]
  cases hglob : Glob.compile glob with
  | error e => rfl
  | ok pattern =>
      dsimp only
      rw [Plan.run_bind]
      by_cases hbrace : glob.contains '\x7b'
      · rw [if_pos hbrace]
        rfl
      · rw [if_neg hbrace]
        have hscan : (inquire (.scan (o.membersKey type) (some glob))).run Cells.respond m =
            (m, .ok ((members o type m).filter (Glob.isMatch pattern))) := by
          change (m, Cells.lookup m (.scan (o.membersKey type) (some glob))) = _
          rw [Cells.lookup, hglob]
          rfl
        rw [hscan]
        have htwice : ((members o type m).filter (Glob.isMatch pattern)).filter (Glob.isMatch pattern) =
            (members o type m).filter (Glob.isMatch pattern) :=
          Std.ExtTreeSet.ext_mem fun x => by simp only [StringSet.mem_filter, and_assoc, and_self]
        exact congrArg (fun s => (m, Except.ok s)) htwice

/-- A read answers what the cells show and leaves them as they are. -/
theorem run_read {r : CacheRequest} (h : r.isRead) :
    (plan o r).run Cells.respond m = (m, readReply o m r) := by
  cases r with
  | entities type ids filter => exact run_entities ids filter
  | identifiers type => rfl
  | matching type glob => exact run_matching glob
  | existing type ids => exact run_existing ids
  | _ => simp [CacheRequest.isRead] at h

/-- Cells that look the same are read alike. -/
theorem readReply_congr {m' : Cells} (h : m.SameReads m') (r : CacheRequest) :
    readReply o m r = readReply o m' r := by
  have hattributes : ∀ key, (m key).attributes = (m' key).attributes := fun key => (h key).1
  have hmembers : ∀ key, (m key).members = (m' key).members := fun key => (h key).2
  have hentity : ∀ type types, entityAt o type m types = entityAt o type m' types := fun type types =>
    funext fun id => by simp only [entityAt, relationshipsAt, hattributes, hmembers]
  cases r <;> simp only [readReply, presentIds, members, hentity, hmembers]

/-- The attributes of an entity that is there can be read. -/
theorem readReply_entity {id : String} (h : id ∈ members o type m) :
    readReply o m (.entities type (some [id]) (some .none)) =
      (m (o.attributesKey type id)).attributes.map fun attributes => [{ id, attributes }] := by
  have hpresent : presentIds o type m (some [id]) = [id] := by
    simp [presentIds, h]
  rw [readReply, hpresent, NameFilter.select_none, List.mapM_cons, List.mapM_nil, entityAt]
  cases (m (o.attributesKey type id)).attributes with
  | error e => rfl
  | ok attributes =>
      simp [relationshipsAt, Except.map, bind, Except.bind, pure, Except.pure]

/-- Stores in which an entity is read alike show the same attributes of it. -/
theorem attributes_of_readReply {m' : Cells} {id : String} (h : id ∈ members o type m)
    (h' : id ∈ members o type m')
    (hread : readReply o m (.entities type (some [id]) (some .none)) =
      readReply o m' (.entities type (some [id]) (some .none))) :
    (m (o.attributesKey type id)).attributes = (m' (o.attributesKey type id)).attributes := by
  rw [readReply_entity h, readReply_entity h'] at hread
  cases hm : (m (o.attributesKey type id)).attributes <;>
    cases hm' : (m' (o.attributesKey type id)).attributes <;> simp_all [Except.map]

end KeyValue

end Inventory
