import Inventory.Proofs.Merge.Contributions
import Inventory.Proofs.Merge.Disjoint
import Inventory.Proofs.Merge.Refusal

/-!
# Inventory.Proofs.Merge.Commuting

Reports that only contribute, in any order.

What is written of such a report are entities of which nothing is kept but their related ids
(`Entity.IsBare`). Writes of two of them may change places, and a repeated write changes nothing, in
memory as under every key (`contribute_comm`, `contribute_self`). What a list of reports comes to is
therefore told by its members alone (`contributions_agree`).
-/

namespace Inventory

open KeyValue Engine

/-! ## Steps in any order -/

section Steps

variable {α β : Type} {f : β → α → β} {l l' : List α}
  (hself : ∀ x ∈ l, ∀ b, f (f b x) x = f b x)
  (hcomm : ∀ x ∈ l, ∀ y ∈ l, ∀ b, f (f b x) y = f (f b y) x)

include hself hcomm

/-- A step that was made is not made again. -/
theorem foldl_absorb {x : α} (hx : x ∈ l) (b : β) : f (l.foldl f b) x = l.foldl f b := by
  obtain ⟨before, after, rfl⟩ := List.append_of_mem hx
  have hlast : (before ++ x :: after).foldl f b = f ((before ++ after).foldl f b) x := by
    rw [List.perm_middle.foldl_eq' hcomm, List.Perm.foldl_eq' (List.perm_append_singleton x _).symm
      fun y hy z hz => hcomm y (List.perm_middle.mem_iff.2 hy) z (List.perm_middle.mem_iff.2 hz),
      List.foldl_append, List.foldl_cons, List.foldl_nil]
  rw [hlast, hself x hx]

theorem foldl_absorb_all (h : ∀ x ∈ l', x ∈ l) (b : β) : l'.foldl f (l.foldl f b) = l.foldl f b := by
  induction l' with
  | nil => rfl
  | cons x l' ih =>
      rw [List.foldl_cons, foldl_absorb hself hcomm (h x List.mem_cons_self)]
      exact ih fun y hy => h y (List.mem_cons_of_mem _ hy)

/-- Steps that may change places and need not be repeated lead where their set leads. -/
theorem foldl_eq_of_mem_iff (h : ∀ x, x ∈ l ↔ x ∈ l') (b : β) : l.foldl f b = l'.foldl f b := by
  have hself' : ∀ x ∈ l', ∀ b, f (f b x) x = f b x := fun x hx => hself x ((h x).2 hx)
  have hcomm' : ∀ x ∈ l', ∀ y ∈ l', ∀ b, f (f b x) y = f (f b y) x := fun x hx y hy =>
    hcomm x ((h x).2 hx) y ((h y).2 hy)
  have hboth : ∀ x ∈ l ++ l', x ∈ l := fun x hx => (List.mem_append.1 hx).elim id (h x).2
  calc l.foldl f b
      = (l ++ l').foldl f b := by
        rw [List.foldl_append, foldl_absorb_all hself hcomm fun x hx => (h x).2 hx]
    _ = (l' ++ l).foldl f b := List.perm_append_comm.foldl_eq'
        (fun x hx y hy => hcomm x (hboth x hx) y (hboth y hy)) b
    _ = l'.foldl f b := by
        rw [List.foldl_append, foldl_absorb_all hself' hcomm' fun x hx => (h x).1 hx]

end Steps

/-! ## Entities with nothing but related ids -/

/-- Of the entity there is nothing to write but its id and its related ids. -/
structure Entity.IsBare (e : Entity) : Prop where
  id : e.id.isEmpty = false
  attributes : e.attributes = []
  ttl : e.ttl = none

theorem StringSet.union_empty (s : StringSet) : s ∪ ∅ = s :=
  Std.ExtTreeSet.ext_mem fun x => by simp [Std.ExtTreeSet.mem_union_iff]

namespace Relationships

variable (r a b : Relationships)

/-- Related types of which nothing is given are left as they are. -/
theorem getElem?_union_eq (type : String) : (r.union a)[type]? =
    if StringMap.find a type = ∅ then r[type]?
    else some (StringMap.find r type ∪ StringMap.find a type) := by
  rw [getElem?_union]
  cases ha : a[type]? with
  | none =>
      have hfind : StringMap.find a type = ∅ := by rw [StringMap.find, ha, Option.getD_none]
      rw [if_pos hfind]
  | some ids =>
      have hfind : StringMap.find a type = ids := by rw [StringMap.find, ha, Option.getD_some]
      simp only [hfind, Std.ExtTreeSet.isEmpty_iff]

theorem find_union (type : String) :
    StringMap.find (r.union a) type = StringMap.find r type ∪ StringMap.find a type := by
  rw [StringMap.find, getElem?_union_eq]
  split
  · next hnone => rw [hnone, StringSet.union_empty, StringMap.find]
  · rfl

theorem union_right_comm : (r.union a).union b = (r.union b).union a := by
  refine Std.ExtTreeMap.ext_getElem? fun type => ?_
  have hcomm : StringMap.find r type ∪ StringMap.find a type ∪ StringMap.find b type =
      StringMap.find r type ∪ StringMap.find b type ∪ StringMap.find a type :=
    Std.ExtTreeSet.ext_mem fun x => by simp only [Std.ExtTreeSet.mem_union_iff, or_right_comm]
  simp only [getElem?_union_eq, find_union]
  by_cases ha : StringMap.find a type = ∅ <;> by_cases hb : StringMap.find b type = ∅
  · simp only [ha, hb, if_true]
  · simp only [ha, hb, if_true, if_false, StringSet.union_empty]
  · simp only [ha, hb, if_true, if_false, StringSet.union_empty]
  · simp only [ha, hb, if_false, hcomm]

theorem union_self : (r.union a).union a = r.union a := by
  refine Std.ExtTreeMap.ext_getElem? fun type => ?_
  have hself : StringMap.find r type ∪ StringMap.find a type ∪ StringMap.find a type =
      StringMap.find r type ∪ StringMap.find a type :=
    Std.ExtTreeSet.ext_mem fun x => by simp only [Std.ExtTreeSet.mem_union_iff, or_assoc, or_self]
  simp only [getElem?_union_eq, find_union, hself]
  by_cases ha : StringMap.find a type = ∅ <;> simp only [ha, if_true, if_false]

end Relationships

namespace Record

variable {e e' : Entity}

theorem write_bare (he : e.IsBare) (r : Record) :
    r.write .union e = { r with relationships := r.relationships.union e.relationships } := by
  simp [write, he.attributes, he.ttl]

theorem write_comm (he : e.IsBare) (he' : e'.IsBare) (r : Record) :
    (r.write .union e).write .union e' = (r.write .union e').write .union e := by
  simp only [write_bare he, write_bare he', Relationships.union_right_comm]

theorem write_self (he : e.IsBare) (r : Record) :
    (r.write .union e).write .union e = r.write .union e := by
  simp only [write_bare he, Relationships.union_self]

end Record

/-! ### In memory -/

namespace Memory

variable {e e' : Entity} (records : StringMap Record) (m : Memory) (type type' : String)

/-- The records with one more entity. -/
def join (e : Entity) : StringMap Record :=
  records.insert e.id ((recordAt records e.id).write .union e)

theorem recordAt_join (e : Entity) (id : String) : recordAt (join records e) id =
    if e.id = id then (recordAt records e.id).write .union e else recordAt records id :=
  recordAt_insert ..

theorem getElem?_join (e : Entity) (id : String) : (join records e)[id]? =
    if e.id = id then some ((recordAt records e.id).write .union e) else records[id]? := by
  by_cases hid : e.id = id <;> simp [join, Std.ExtTreeMap.getElem?_insert, hid]

theorem join_comm (he : e.IsBare) (he' : e'.IsBare) :
    join (join records e) e' = join (join records e') e := by
  refine Std.ExtTreeMap.ext_getElem? fun id => ?_
  simp only [getElem?_join, recordAt_join]
  by_cases hsame : e.id = e'.id
  · simp only [hsame, if_true, Record.write_comm he he']
    split <;> rfl
  · by_cases hid : e.id = id
    · have hid' : e'.id ≠ id := fun h => hsame (hid.trans h.symm)
      simp [hid, hid']
    · simp [hid, hsame]

theorem join_self (he : e.IsBare) : join (join records e) e = join records e := by
  refine Std.ExtTreeMap.ext_getElem? fun id => ?_
  simp only [getElem?_join, recordAt_join, if_true, Record.write_self he]
  split <;> rfl

theorem answer_write_bare (he : e.IsBare) : (m.answer (.write .union type [e])).1 =
    { m with types := m.types.insert type (join (m.recordsOf type) e) } := by
  simp [answer, writeAll, he.id, join, recordAt]

/-- Several entities of a type are written one after the other. -/
theorem answer_write_cons {es : List Entity} (he : e.IsBare) (hes : ∀ e ∈ es, e.IsBare) :
    (m.answer (.write .union type (e :: es))).1 =
      (e :: es).foldl (fun m e => (m.answer (.write .union type [e])).1) m := by
  have hloop : ∀ (es : List Entity) (records : StringMap Record), (∀ e ∈ es, e.IsBare) →
      es.foldl (fun m e => (answer m (.write .union type [e])).1)
          { m with types := m.types.insert type records } =
        { m with types := m.types.insert type (writeAll .union type records es).1 } := by
    intro es
    induction es with
    | nil => exact fun _ _ => rfl
    | cons e es ih =>
        intro records hes
        have he := hes e List.mem_cons_self
        have hagain : ∀ r r' : StringMap Record,
            (m.types.insert type r).insert type r' = m.types.insert type r' := fun r r' =>
          Std.ExtTreeMap.ext_getElem? fun t => by
            by_cases ht : type = t <;> simp [Std.ExtTreeMap.getElem?_insert, ht]
        rw [List.foldl_cons, answer_write_bare _ type he, recordsOf_insert, if_pos rfl, hagain,
          ih _ fun e he => hes e (List.mem_cons_of_mem _ he), writeAll, if_neg (by simp [he.id])]
        rfl
  rw [List.foldl_cons, answer_write_bare m type he, hloop es _ hes]
  simp only [answer, writeAll, he.id, Bool.false_eq_true, if_false]
  rfl

theorem contribute_comm (he : e.IsBare) (he' : e'.IsBare) :
    ((m.answer (.write .union type [e])).1.answer (.write .union type' [e'])).1 =
      ((m.answer (.write .union type' [e'])).1.answer (.write .union type [e])).1 := by
  simp only [answer_write_bare _ _ he, answer_write_bare _ _ he', recordsOf_insert]
  refine congrArg Memory.mk (Std.ExtTreeMap.ext_getElem? fun t => ?_)
  simp only [Std.ExtTreeMap.getElem?_insert, Std.LawfulEqCmp.compare_eq_iff_eq]
  by_cases htypes : type = type'
  · subst htypes
    simp only [if_true, join_comm _ he he']
    split <;> rfl
  · rw [if_neg htypes, if_neg (Ne.symm htypes)]
    by_cases ht : type = t
    · have ht' : type' ≠ t := fun h => htypes (ht.trans h.symm)
      rw [if_neg ht', if_pos ht, if_pos ht]
    · rw [if_neg ht, if_neg ht]

theorem contribute_self (he : e.IsBare) :
    ((m.answer (.write .union type [e])).1.answer (.write .union type [e])).1 =
      (m.answer (.write .union type [e])).1 := by
  simp only [answer_write_bare _ _ he, recordsOf_insert, if_true, join_self _ he]
  refine congrArg Memory.mk (Std.ExtTreeMap.ext_getElem? fun t => ?_)
  by_cases ht : type = t <;> simp [Std.ExtTreeMap.getElem?_insert, ht]

end Memory

/-! ### Under keys -/

namespace KeyValue

variable {o : Options} {e : Entity}

/-- Under every key a bare entity adds members, if anything. -/
theorem respond_write_bare (he : e.IsBare) (type key : String) :
    ∃ xs, ∀ m, (Backend.respond o (.write .union type [e]) m).1 key = (m key).add xs := by
  have hcell : ∀ m, (Backend.respond o (.write .union type [e]) m).1 key =
      frameCell o .union type key (m key) e := fun m => by
    rw [respond_write_of_forall (by simpa using he.attributes) (by simpa using he.id), putFrames_at]
    rfl
  simp only [hcell]
  obtain ⟨xs, h⟩ | ⟨ids, h⟩ := frameCell_cases o .union type key e
  · exact ⟨xs, fun m => h (m key)⟩
  · refine ⟨ids.toList, fun m => (h (m key)).trans ?_⟩
    simp [relatedCell, Cell.add, he.ttl]

end KeyValue

/-! ### In both caches -/

namespace Medium

variable {medium : Medium} {type : String} {e : Entity} {p q : String × Entity}

/-- What requests are answered from after an entity of a type has been written. -/
def contribute (medium : Medium) (m : medium.View) (p : String × Entity) : medium.View :=
  (medium.respond (.write .union p.1 [p.2]) m).1

theorem contribute_comm (hp : p.2.IsBare) (hq : q.2.IsBare) (m : medium.View) :
    medium.contribute (medium.contribute m p) q = medium.contribute (medium.contribute m q) p := by
  cases medium with
  | memory name => exact Memory.contribute_comm m p.1 q.1 hp hq
  | node o name =>
      refine funext fun key => ?_
      obtain ⟨xs, hxs⟩ := respond_write_bare (o := o) hp p.1 key
      obtain ⟨ys, hys⟩ := respond_write_bare (o := o) hq q.1 key
      refine ((hys _).trans (congrArg (Cell.add ys) (hxs m))).trans
        (Eq.trans ?_ ((hxs _).trans (congrArg (Cell.add xs) (hys m))).symm)
      rw [← Cell.add_append, ← Cell.add_append]
      exact Cell.add_congr fun x => by simp [or_comm]

theorem contribute_self (hp : p.2.IsBare) (m : medium.View) :
    medium.contribute (medium.contribute m p) p = medium.contribute m p := by
  cases medium with
  | memory name => exact Memory.contribute_self m p.1 hp
  | node o name =>
      refine funext fun key => ?_
      obtain ⟨xs, hxs⟩ := respond_write_bare (o := o) hp p.1 key
      refine ((hxs _).trans (congrArg (Cell.add xs) (hxs m))).trans (Eq.trans ?_ (hxs m).symm)
      rw [← Cell.add_append]
      exact Cell.add_congr fun x => by simp

/-- Entities of a type that are written together might be written one by one. -/
theorem respond_write_eq_foldl {es : List Entity} (hne : es ≠ []) (hes : ∀ e ∈ es, e.IsBare)
    (m : medium.View) : (medium.respond (.write .union type es) m).1 =
      (es.map (type, ·)).foldl medium.contribute m := by
  rw [List.foldl_map]
  cases medium with
  | memory name =>
      obtain ⟨e, es, rfl⟩ := List.exists_cons_of_ne_nil hne
      exact Memory.answer_write_cons m type (hes e List.mem_cons_self)
        fun e he => hes e (List.mem_cons_of_mem _ he)
  | node o name =>
      refine (respond_write_of_forall (fun e he => (hes e he).attributes) (fun e he => (hes e he).id)
        m).trans (List.foldl_ext _ _ _ fun m e he => ?_)
      have hone : ∀ e' ∈ [e], e'.IsBare := by simpa using hes e he
      exact (respond_write_of_forall (fun e he => (hone e he).attributes) (fun e he => (hone e he).id)
        m).symm

end Medium

/-! ## Reports that only contribute -/

/-- The report evicts nothing, writes nothing that expires and no data that was asked for. -/
structure Report.OnlyContributes (r : Report) : Prop where
  evictions : ∀ type, r.evictionsOf type = []
  permanent : ∀ type, ∀ e ∈ r.entitiesOf type, e.ttl = none
  unasked : r.entitiesOf onDemandType = []

namespace Report

/-- What is written of a report for a source without authority, by type. -/
def contributions (r : Report) : List (String × Entity) :=
  r.entities.toList.flatMap fun (type, es) => es.map fun e => (type, e.withoutAttributes)

variable {r : Report} {engine : Engine}

theorem OnlyContributes.isBare (h : r.OnlyContributes) (haccepts : engine.Accepts r) {type : String}
    {es : List Entity} (hes : (type, es) ∈ r.entities.toList) :
    ∀ e ∈ es.map Entity.withoutAttributes, e.IsBare := by
  intro e he
  obtain ⟨e', he', rfl⟩ := List.mem_map.1 he
  have hentities : r.entitiesOf type = es := StringMap.find_of_mem_toList hes
  have hid : e'.id.isEmpty = false := isEmpty_of_accepts haccepts hes he'
  exact ⟨hid, rfl, h.permanent type e' (hentities ▸ he')⟩

theorem OnlyContributes.isBare_of_mem (h : r.OnlyContributes) (haccepts : engine.Accepts r)
    {p : String × Entity} (hp : p ∈ r.contributions) : p.2.IsBare := by
  obtain ⟨⟨type, es⟩, hes, hmem⟩ := List.mem_flatMap.1 hp
  obtain ⟨e, he, rfl⟩ := List.mem_map.1 hmem
  exact h.isBare haccepts hes _ (List.mem_map_of_mem he)

end Report

namespace Medium

variable {medium : Medium} {engine : Engine} {r : Report}

/-- What a report contributes is all that its merge does. -/
theorem fulfils_apply_contributions (h : r.OnlyContributes) (haccepts : engine.Accepts r)
    (m : medium.View) :
    Plan.Fulfils medium.respond (.alone _) (fun m' => m' = m) (apply ∅ r ∅)
      (fun _ m' => m' = r.contributions.foldl medium.contribute m) fun _ _ => False := by
  let inv : List (String × List Entity) → medium.View → Prop := fun rest m' =>
    (rest.flatMap fun (type, es) => es.map fun e => (type, e.withoutAttributes)).foldl
      medium.contribute m' = r.contributions.foldl medium.contribute m
  refine Plan.fulfils_bind (fun _ => inv []) ((fulfils_writeAll ∅ r inv
    (fun _ => Plan.Conduct.stable_alone _) (fun _ _ _ hs => hs) ?_).mono
      (fun m' hm => by rw [hm]; rfl) (fun _ _ h => h) fun _ _ h => h) fun stats => ?_
  · intro type es rest hmem hne s hs
    have hbare := h.isBare haccepts hmem
    have htype : type ≠ onDemandType := by
      rintro rfl
      exact hne ((StringMap.find_of_mem_toList hmem).symm.trans h.unasked)
    have hpart : es.map (partOf ∅ type) = es.map Entity.withoutAttributes :=
      List.map_congr_left fun e _ => if_neg (by simp [htype])
    have hmode : modeOf ∅ type = .union := if_neg Std.ExtTreeSet.not_mem_empty
    refine ⟨trivial, respond_write_snd _ _ (fun e he => (hbare e (hpart ▸ he)).id) s, ?_⟩
    rw [hpart, hmode, respond_write_eq_foldl (by simpa using hne) hbare, List.map_map]
    simp only [inv, List.flatMap_cons, List.foldl_append] at hs ⊢
    exact hs
  · have hnone : ∀ p ∈ (evictions ∅ r).toList, p.2 = ∅ := by
      rintro ⟨type, ids⟩ hp
      refine Std.ExtTreeSet.ext_mem fun x => ⟨fun hx => ?_, fun hx => absurd hx (by simp)⟩
      have hfind : StringMap.find (evictions ∅ r) type = ids := StringMap.find_of_mem_toList hp
      rw [← hfind] at hx
      have hevicts := (KeepsIds.mem_evictions (r := r) ∅ x).1 hx
      simp [StringMap.find, explicitIds, h.evictions] at hevicts
    refine (Plan.fulfils_forEach (fun _ _ => inv []) ?_ stats).mono (fun _ hs => hs) (fun _ _ h => h)
      fun _ _ h => h
    rintro ⟨type, ids⟩ rest hsuffix stats
    obtain rfl : ids = ∅ := hnone _ (hsuffix.subset List.mem_cons_self)
    exact Plan.fulfils_give fun _ hs => hs

/-- Calls that each merge a report for a source without authority, whatever they come to. -/
inductive Adds (medium : Medium) (engine : Engine) :
    medium.backend.State → List (Source × Report) → medium.backend.State → Prop
  | nil (s : medium.backend.State) : Adds medium engine s [] s
  | cons {s s₁ s' : medium.backend.State} {source : Source} {r : Report} {rs : List (Source × Report)}
      {result : Except Error MergeStats}
      (hends : medium.backend.EndsIn (engine.mergePartial source ∅ r) s s₁ result)
      (hrest : Adds medium engine s₁ rs s') : Adds medium engine s ((source, r) :: rs) s'

/-- The reports of a list can all be added, and what they contribute is what those of them contribute
that are accepted. -/
theorem exists_adds (engine : Engine) {s : medium.backend.State} (hs : medium.Sound s)
    {rs : List (Source × Report)} (hrs : ∀ p ∈ rs, p.2.OnlyContributes) :
    ∃ (s' : medium.backend.State) (l : List (String × Entity)), medium.Adds engine s rs s' ∧ medium.Sound s' ∧
      medium.view s' = l.foldl medium.contribute (medium.view s) ∧
      ∀ x, x ∈ l ↔ ∃ p ∈ rs, engine.Accepts p.2 ∧ x ∈ p.2.contributions := by
  induction rs generalizing s with
  | nil => exact ⟨s, [], .nil s, hs, rfl, by simp⟩
  | cons p rs ih =>
      obtain ⟨source, r⟩ := p
      have hr := hrs _ List.mem_cons_self
      obtain ⟨s₁, hends, hs₁, hview₁⟩ := exists_endsIn hs (engine.mergePartial source ∅ r)
      have hend := (fulfils_mergePartial engine source ∅ r _ fun haccepts =>
        fulfils_apply_contributions hr haccepts (medium.view s)).run rfl (Prod.eta (Plan.run _ _ _)).symm
      rw [← hview₁] at hend
      obtain ⟨s', l, hadds, hs', hview, hl⟩ := ih hs₁ fun p hp => hrs p (List.mem_cons_of_mem _ hp)
      cases hresult : ((engine.mergePartial source ∅ r).run medium.respond (medium.view s)).2 with
      | ok stats =>
          rw [hresult] at hend
          obtain ⟨haccepts, hcontributed⟩ := hend
          refine ⟨s', r.contributions ++ l, .cons hends hadds, hs', ?_, fun x => ?_⟩
          · rw [hview, hcontributed, List.foldl_append]
          · simp [hl, haccepts]
      | error e =>
          rw [hresult] at hend
          obtain ⟨hsame, hrefused⟩ := hend
          refine ⟨s', l, .cons hends hadds, hs', by rw [hview, hsame], fun x => ?_⟩
          simp [hl, hrefused]

end Medium

/-- Reports that only contribute come to the same in any order and however often each is repeated. In
every state without faults, whatever the reports are and whatever is refused of them, each read is
answered alike after two lists of them that have the same members. -/
theorem contributions_agree {medium : Medium} {s : medium.backend.State} (hs : medium.Sound s)
    (engine : Engine) {rs rs' : List (Source × Report)} (hrs : ∀ p ∈ rs, p.2.OnlyContributes)
    (hmem : ∀ p, p ∈ rs ↔ p ∈ rs') :
    ∃ s₁ s₂, medium.Adds engine s rs s₁ ∧ medium.Adds engine s rs' s₂ ∧
      ∀ q : CacheRequest, q.isRead →
        ∃ reply, medium.backend.Replies s₁ q reply ∧ medium.backend.Replies s₂ q reply := by
  obtain ⟨s₁, l, hadds₁, hs₁, hview₁, hl⟩ := Medium.exists_adds engine hs hrs
  obtain ⟨s₂, l', hadds₂, hs₂, hview₂, hl'⟩ := Medium.exists_adds engine hs
    fun p hp => hrs p ((hmem p).2 hp)
  have hbare : ∀ x ∈ l, x.2.IsBare := fun x hx => by
    obtain ⟨p, hp, haccepts, hx⟩ := (hl x).1 hx
    exact (hrs p hp).isBare_of_mem haccepts hx
  have hsame : medium.view s₁ = medium.view s₂ := by
    rw [hview₁, hview₂]
    refine foldl_eq_of_mem_iff (fun x hx m => Medium.contribute_self (hbare x hx) m)
      (fun x hx y hy m => Medium.contribute_comm (hbare x hx) (hbare y hy) m) (fun x => ?_) _
    simp only [hl, hl', hmem]
  exact ⟨s₁, s₂, hadds₁, hadds₂, fun q _ => ⟨_, Medium.replies hs₁ q, hsame ▸ Medium.replies hs₂ q⟩⟩

theorem onlyContributes_reportOf {e : Entity} (h : e.ttl = none) : (reportOf e).OnlyContributes where
  evictions _ := rfl
  permanent type e' he' := by
    rw [entitiesOf_reportOf] at he'
    split at he'
    · exact List.mem_singleton.1 he' ▸ h
    · simp at he'
  unasked := (entitiesOf_reportOf e _).trans (if_neg (by decide))

/-- Two reports on one entity, the other way round and one of them twice. -/
theorem contributions_agree_on_node :
    let medium := Medium.node {} "kv"
    let first := (ofAll, reportOf (relatedTo "a" "n" "e"))
    let second := (ofAll, reportOf (relatedTo "a" "n" "f"))
    ∃ s s₁ s₂, medium.Sound s ∧ (∀ p ∈ [first, second], p.2.OnlyContributes) ∧
      (∀ p, p ∈ [first, second] ↔ p ∈ [second, first, second]) ∧
      medium.Adds unchecked s [first, second] s₁ ∧ medium.Adds unchecked s [second, first, second] s₂ ∧
      ∀ q : CacheRequest, q.isRead →
        ∃ reply, medium.backend.Replies s₁ q reply ∧ medium.backend.Replies s₂ q reply := by
  intro medium first second
  have hs : medium.Sound medium.fresh := medium.isFresh_fresh.sound
  have hreports : ∀ p ∈ [first, second], p.2.OnlyContributes := by
    simp only [List.mem_cons, List.not_mem_nil, or_false]
    rintro p (rfl | rfl) <;> exact onlyContributes_reportOf rfl
  have hmem : ∀ p, p ∈ [first, second] ↔ p ∈ [second, first, second] := by
    simp only [List.mem_cons, List.not_mem_nil]
    grind
  obtain ⟨s₁, s₂, hadds₁, hadds₂, hagree⟩ := contributions_agree hs unchecked hreports hmem
  exact ⟨_, s₁, s₂, hs, hreports, hmem, hadds₁, hadds₂, hagree⟩

end Inventory
