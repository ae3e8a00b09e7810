import Inventory.Proofs.Merge.Attributes
import Inventory.Proofs.Merge.Refusal

/-!
# Inventory.Proofs.Cache.Agreement

Reads of a type agree with each other.

Both caches read an entity on its own, whichever ids are asked for together and however the read is cut
into requests, and a filter that decides on each name by itself takes relationships away and changes
nothing else (`entityAt_select`, `Record.entity_filter`). The entities of some ids are therefore found among
all entities of the type (`reads_agree`).
-/

namespace Inventory

open KeyValue

/-! ## One entity after the other -/

/-- The entity with those of its relationships that a filter accepts. -/
def Entity.through (filter : Option NameFilter) (e : Entity) : Entity :=
  e.retainRelationships fun related => filter.all (·.accepts related)

/-- First occurrences are what is left when later repetitions are erased. -/
theorem firstOccurrences_eq_eraseDups (l : List String) : firstOccurrences l = l.eraseDups := by
  have hgo : ∀ (l : List String) (seen : StringSet),
      firstOccurrences.go seen l = (l.filter (· ∉ seen)).eraseDups := by
    intro l
    induction l with
    | nil => exact fun _ => rfl
    | cons x l ih =>
        intro seen
        rw [firstOccurrences.go]
        by_cases hx : x ∈ seen
        · rw [if_pos hx, ih, List.filter_cons_of_neg (by simpa using hx)]
        · rw [if_neg hx, ih, List.filter_cons_of_pos (by simpa using hx), List.eraseDups_cons,
            List.filter_filter]
          congr 2
          refine List.filter_congr fun y _ => ?_
          have hinsert : y ∈ seen.insert x ↔ x = y ∨ y ∈ seen := by
            rw [Std.ExtTreeSet.mem_insert, Std.LawfulEqCmp.compare_eq_iff_eq]
          by_cases hy : x = y
          · subst hy
            simp [hinsert]
          · simp [hinsert, hy, Ne.symm hy]
  rw [firstOccurrences, hgo]
  simp

section Singly

variable {kept : String → Except Error Entity}

/-- Of entities that are read one after the other, each is found by its id. -/
theorem find?_of_mapM (hid : ∀ id e, kept id = .ok e → e.id = id) {ids : List String} {es : List Entity}
    (h : ids.mapM kept = .ok es) :
    es.map Entity.id = ids ∧ ∀ id ∈ ids, ∃ e, kept id = .ok e ∧ es.find? (·.id == id) = some e := by
  induction ids generalizing es with
  | nil =>
      cases h
      exact ⟨rfl, by simp⟩
  | cons id ids ih =>
      rw [List.mapM_cons] at h
      cases hkept : kept id with
      | error e => simp [hkept, bind, Except.bind] at h
      | ok e =>
          cases hrest : ids.mapM kept with
          | error e' => simp [hkept, hrest, bind, Except.bind] at h
          | ok rest =>
              obtain rfl : e :: rest = es := by
                simpa [hkept, hrest, bind, Except.bind, pure, Except.pure] using h
              obtain ⟨hmap, hfind⟩ := ih hrest
              refine ⟨by rw [List.map_cons, hmap, hid id e hkept], fun id' hid' => ?_⟩
              by_cases hsame : id = id'
              · subst hsame
                exact ⟨e, hkept, by simp [hid id e hkept]⟩
              · obtain ⟨e', he', hfound⟩ :=
                  hfind id' ((List.mem_cons.1 hid').resolve_left (Ne.symm hsame))
                exact ⟨e', he', by simp [hid id e hkept, hsame, hfound]⟩

/-- Those of some ids that are among them are read as they were found. -/
theorem mapM_filter_eq (hid : ∀ id e, kept id = .ok e → e.id = id) {ids : StringSet} {es : List Entity}
    (h : ids.toList.mapM kept = .ok es) (change : Entity → Entity) (l : List String) :
    (l.filter ids.contains).mapM (fun id => (kept id).map change) =
      .ok (l.filterMap fun id => (es.find? (·.id == id)).map change) := by
  obtain ⟨hmap, hfind⟩ := find?_of_mapM hid h
  induction l with
  | nil => rfl
  | cons id l ih =>
      by_cases hmem : id ∈ ids
      · obtain ⟨e, hkept, hfound⟩ := hfind id (Std.ExtTreeSet.mem_toList.2 hmem)
        rw [List.filter_cons_of_pos (Std.ExtTreeSet.contains_iff_mem.2 hmem), List.mapM_cons, ih, hkept,
          List.filterMap_cons, hfound]
        rfl
      · have hnone : es.find? (·.id == id) = none := by
          rw [List.find?_eq_none]
          intro e he heq
          refine hmem (Std.ExtTreeSet.mem_toList.1 (hmap ▸ List.mem_map.2 ⟨e, he, ?_⟩))
          simpa using heq
        rw [List.filter_cons_of_neg (by simpa using hmem), ih, List.filterMap_cons, hnone]
        rfl

end Singly

namespace KeyValue

variable {o : Options} {type : String} {m : Cells}

/-- A filter decides which relationships are read with an entity, and nothing else. -/
theorem entityAt_select (types : List String) {filter : Option NameFilter}
    (hfilter : ∀ f ∈ filter, f.IsNamewise) (id : String) :
    entityAt o type m (NameFilter.select filter types) id =
      (entityAt o type m types id).map (·.through filter) := by
  have hrelated : relationshipsAt o type m (NameFilter.select filter types) id =
      (relationshipsAt o type m types id).filter fun related _ => filter.all (·.accepts related) := by
    refine Std.ExtTreeMap.ext_getElem? fun related => ?_
    simp only [Std.ExtTreeMap.getElem?_filter', getElem?_relationshipsAt, NameFilter.mem_select hfilter]
    by_cases haccepts : filter.all (·.accepts related)
    · simp only [haccepts, and_true]
      split <;> rfl
    · rw [if_neg fun h => haccepts h.1.2]
      split <;> simp [haccepts]
  rw [entityAt, entityAt, hrelated]
  cases (m (o.attributesKey type id)).attributes <;> rfl

theorem id_of_entityAt {types : List String} {id : String} {e : Entity}
    (h : entityAt o type m types id = .ok e) : e.id = id := by
  unfold entityAt at h
  cases hattributes : (m (o.attributesKey type id)).attributes with
  | error e' => simp [hattributes, bind, Except.bind] at h
  | ok a =>
      rw [hattributes] at h
      cases h
      rfl

end KeyValue

/-- So does it in memory. -/
theorem Record.entity_filter (r : Record) (id : String) {filter : Option NameFilter}
    (hfilter : ∀ f ∈ filter, f.IsNamewise) :
    r.entity id filter = (r.entity id none).through filter := by
  have hrelated : (r.relationships.filter fun related _ =>
        (NameFilter.select filter r.relationships.types).contains related) =
      (r.relationships.filter fun related _ =>
        (NameFilter.select none r.relationships.types).contains related).filter
          fun related _ => filter.all (·.accepts related) := by
    refine Std.ExtTreeMap.ext_getElem? fun related => ?_
    simp only [Std.ExtTreeMap.getElem?_filter']
    cases hids : r.relationships[related]? with
    | none => rfl
    | some ids =>
        have hmem : related ∈ r.relationships.types := by
          rw [Relationships.types, Std.ExtTreeMap.mem_keys, Std.ExtTreeMap.mem_iff_isSome_getElem?, hids]
          rfl
        have hselect : ∀ f : Option NameFilter, (∀ g ∈ f, g.IsNamewise) →
            (NameFilter.select f r.relationships.types).contains related =
              f.all (·.accepts related) := fun f hf => by
          rw [Bool.eq_iff_iff, List.contains_iff_mem, NameFilter.mem_select hf, and_iff_right hmem]
        rw [hselect filter hfilter, hselect none (by simp)]
        simp
  unfold entity
  simp only [Entity.through, Entity.retainRelationships, Entity.withTtl]
  rw [hrelated]

/-! ## All reads of a type -/

/-- Entities are read one after the other: `kept` is what is read of an id. -/
structure ReadsSingly (reply : (r : CacheRequest) → Except Error r.Reply) (type : String)
    (ids : StringSet) (kept : String → Except Error Entity) : Prop where
  id : ∀ id e, kept id = .ok e → e.id = id
  all : reply (.entities type none none) = ids.toList.mapM kept
  some : ∀ l filter, (∀ f ∈ filter, f.IsNamewise) → reply (.entities type (some l) filter) =
    (l.eraseDups.filter ids.contains).mapM fun id => (kept id).map (·.through filter)

/-- A key-value store shows of an id what stands under its keys. -/
theorem KeyValue.readsSingly (o : Options) (type : String) (m : Cells) :
    ReadsSingly (fun r => (Backend.respond o r m).2) type (members o type m)
      (entityAt o type m (m (o.relatedTypesKey type)).members.toList) where
  id _ _ := id_of_entityAt
  all := by
    rw [Backend.respond_read rfl]
    rfl
  some l filter hfilter := by
    rw [Backend.respond_read rfl]
    simp only [readReply, presentIds, firstOccurrences_eq_eraseDups, ← entityAt_select _ hfilter]

theorem KeyValue.respond_matching {o : Options} (type : String) (m : Cells) {glob : String}
    {pattern : List Glob.Part} (h : Glob.compile glob = .ok pattern) :
    (Backend.respond o (.matching type glob) m).2 =
      .ok ((members o type m).filter (Glob.isMatch pattern)) := by
  rw [Backend.respond_read rfl, readReply, h]
  rfl

theorem Memory.mapM_recordAt (m : Memory) (type : String) (shown : String → Record → Entity)
    (l : List String) :
    (l.filter (m.identifiers type).contains).mapM (m := Except Error) (fun id =>
        .ok (shown id (recordAt (m.recordsOf type) id))) =
      .ok (l.filterMap fun id => ((m.recordsOf type)[id]?).map (shown id)) := by
  induction l with
  | nil => rfl
  | cons id l ih =>
      have hthere : (m.identifiers type).contains id = ((m.recordsOf type)[id]?).isSome := by
        rw [Bool.eq_iff_iff, Std.ExtTreeSet.contains_iff_mem, identifiers, StringMap.mem_keySet,
          Std.ExtTreeMap.mem_iff_isSome_getElem?]
      cases hrecord : (m.recordsOf type)[id]? with
      | none =>
          rw [List.filter_cons_of_neg (by simp [hthere, hrecord]), ih, List.filterMap_cons, hrecord]
          rfl
      | some r =>
          rw [List.filter_cons_of_pos (by simp [hthere, hrecord]), List.mapM_cons, ih,
            recordAt_of_getElem? hrecord, List.filterMap_cons, hrecord]
          rfl

/-- Memory shows of an id its record. -/
theorem Memory.readsSingly (m : Memory) (type : String) :
    ReadsSingly (fun r => (m.answer r).2) type (m.identifiers type) fun id =>
      .ok ((recordAt (m.recordsOf type) id).entity id none) where
  id id e h := by
    cases h
    rfl
  all := by
    have hkeys : (m.identifiers type).toList = (m.recordsOf type).keys :=
      StringMap.toList_eq_keys fun id => StringMap.mem_keySet
    have hall := m.mapM_recordAt type (fun id r => r.entity id none) (m.identifiers type).toList
    rw [List.filter_eq_self.2 fun id hid => by simpa using hid] at hall
    rw [hall, hkeys]
    rfl
  some l filter hfilter := by
    have hsome := m.mapM_recordAt type (fun id r => r.entity id filter) l.eraseDups
    simp only [Record.entity_filter _ _ hfilter] at hsome
    refine Eq.trans ?_ hsome.symm
    simp only [Memory.answer, Memory.entities, firstOccurrences_eq_eraseDups,
      Record.entity_filter _ _ hfilter]

namespace Medium

variable {medium : Medium}

/-- The reads of a type in a state, told by the ids of the type and by what is read of all its entities. A
filter is one that decides on each name by itself: one that looks at all names at once is given those of the
entity in memory and those of the type by a store, and need not come to the same. -/
structure ReadsAgree (medium : Medium) (s : medium.backend.State) (type : String) (ids : StringSet)
    (all : Except Error (List Entity)) : Prop where
  identifiers : medium.backend.Replies s (.identifiers type) (.ok ids)
  existing : ∀ l, medium.backend.Replies s (.existing type l) (.ok (.ofList l ∩ ids))
  matching : ∀ glob pattern, Glob.compile glob = .ok pattern →
    medium.backend.Replies s (.matching type glob) (.ok (ids.filter (Glob.isMatch pattern)))
  entities : medium.backend.Replies s (.entities type none none) all
  each : ∀ es, all = .ok es → es.map Entity.id = ids.toList
  found : ∀ es, all = .ok es → ∀ l filter, (∀ f ∈ filter, f.IsNamewise) →
    medium.backend.Replies s (.entities type (some l) filter)
      (.ok (l.eraseDups.filterMap fun id => (es.find? (·.id == id)).map (·.through filter)))

theorem exists_readsSingly (medium : Medium) (m : medium.View) (type : String) :
    ∃ kept, ReadsSingly (fun r => (medium.respond r m).2) type (medium.ids type m) kept := by
  cases medium with
  | memory name => exact ⟨_, Memory.readsSingly m type⟩
  | node o name => exact ⟨_, KeyValue.readsSingly o type m⟩

theorem respond_matching (medium : Medium) (m : medium.View) (type : String) {glob : String}
    {pattern : List Glob.Part} (h : Glob.compile glob = .ok pattern) :
    (medium.respond (.matching type glob) m).2 =
      .ok ((medium.ids type m).filter (Glob.isMatch pattern)) := by
  cases medium with
  | memory name =>
      change (Glob.compile glob).map _ = _
      rw [h]
      rfl
  | node o name => exact KeyValue.respond_matching type m h

/-- In a sound state all reads of a type agree. -/
theorem readsAgree {s : medium.backend.State} (hs : medium.Sound s) (type : String) :
    medium.ReadsAgree s type (medium.ids type (medium.view s))
      (medium.respond (.entities type none none) (medium.view s)).2 := by
  obtain ⟨kept, hkept⟩ := medium.exists_readsSingly (medium.view s) type
  have hlists := medium.lists (fun _ => True) type
  have hreplies : ∀ r reply, (medium.respond r (medium.view s)).2 = reply →
      medium.backend.Replies s r reply := by
    rintro r _ rfl
    exact replies hs r
  have hall : ∀ es, (medium.respond (.entities type none none) (medium.view s)).2 = .ok es →
      (medium.ids type (medium.view s)).toList.mapM kept = .ok es := fun es hes =>
    hkept.all.symm.trans hes
  refine ⟨hreplies _ _ ?_, fun l => hreplies _ _ ?_, fun glob pattern hglob => hreplies _ _ ?_,
    replies hs _, fun es hes => ?_, fun es hes l filter hfilter => hreplies _ _ ?_⟩
  · exact congrArg Prod.snd (hlists.identifiers _ trivial)
  · refine (congrArg Prod.snd (hlists.existing _ l trivial)).trans (congrArg Except.ok ?_)
    exact Std.ExtTreeSet.ext_mem fun x => by simp
  · exact medium.respond_matching _ type hglob
  · exact (find?_of_mapM hkept.id (hall es hes)).1
  · exact (hkept.some l filter hfilter).trans (mapM_filter_eq hkept.id (hall es hes) _ _)

/-- Where the attributes of a type can be read, all its entities can. -/
theorem Valid.exists_entities {m : medium.View} (h : medium.Valid m) {type : String}
    (ht : medium.Tells type) : ∃ es, (medium.respond (.entities type none none) m).2 = .ok es := by
  cases medium with
  | memory name => exact ⟨_, rfl⟩
  | node o name =>
      obtain ⟨es, hes, -⟩ := KeyValue.exists_entities (h type ht) _ _
      exact ⟨es, (KeyValue.readsSingly o type m).all.trans hes⟩

/-- Reads of a type agree with each other. After any work on a cache, over whatever it is built, the ids
that are there, the ids that match a glob and the entities of some ids, through any filter that decides on
each name by itself, are those that the list of all ids and the list of all entities show. All entities can be
read unless attributes were written that cannot be read once they are stored. -/
theorem reads_agree {W : Attributes → Prop} {c s : medium.backend.State} (hc : medium.IsFresh c)
    (hs : medium.backend.Reaches (CacheRequest.Suits medium.Tells W) c s) {type : String}
    (ht : medium.Tells type) :
    ∃ ids all, medium.ReadsAgree s type ids all ∧
      ((∀ a, W a → medium.Stores a) → ∃ es, all = .ok es) := by
  obtain ⟨p, result, hasks, hends⟩ := hs
  refine ⟨_, _, readsAgree (run_of_endsIn hc.sound hends).1 type, fun hstores => ?_⟩
  have hvalid := (hc.valid_of_reaches medium.valid_fresh
    (fun r m hr hm => medium.keepsEntities.stays r m hr hm)
    ⟨p, result, hasks.mono fun r hr => hr.mono hstores, hends⟩).2
  exact hvalid.exists_entities ht

/-- Two shards that are asked for one key at a time, also for one kind of relationship of an id that is
named twice. -/
theorem reads_agree_on_twoShards :
    let medium := Medium.node { getBatch := 1 } "kv"
    let c : Store := .sharded (["a", "b"].map fun name => { name })
    ∃ s : Store, medium.IsFresh c ∧
      medium.backend.Reaches (CacheRequest.Suits medium.Tells medium.Stores) c s ∧ medium.Tells "t" ∧
      ∃ ids es, medium.ReadsAgree s "t" ids (.ok es) ∧
        medium.backend.Replies s (.entities "t" (some ["a", "a"]) (some (.whose (· == "u"))))
          (.ok ((es.find? (·.id == "a")).map (·.through (some (.whose (· == "u"))))).toList) := by
  intro medium c
  have ht : medium.Tells "t" := (by decide : Plain "t")
  have hc : medium.IsFresh c := Store.IsFresh.sharded (by decide)
  obtain ⟨s, hends, -⟩ := exists_endsIn hc.sound (CachePlan.inTurn oneAnswer)
  have hs : medium.backend.Reaches (CacheRequest.Suits medium.Tells medium.Stores) c s :=
    ⟨_, _, CachePlan.asks_inTurn suits_oneAnswer, hends⟩
  obtain ⟨ids, all, hagree, hread⟩ := reads_agree hc hs ht
  obtain ⟨es, rfl⟩ := hread fun _ ha => ha
  refine ⟨s, hc, hs, ht, ids, es, hagree, ?_⟩
  have hfound := hagree.found es rfl ["a", "a"] (some (.whose (· == "u"))) fun f hf =>
    Option.some.inj hf ▸ NameFilter.isNamewise_whose _
  have honce : ["a", "a"].eraseDups = ["a"] := by decide
  rw [honce, List.filterMap_cons, List.filterMap_nil] at hfound
  cases hentity : es.find? (·.id == "a") with
  | none => simpa [hentity] using hfound
  | some e => simpa [hentity] using hfound

end Medium

end Inventory
