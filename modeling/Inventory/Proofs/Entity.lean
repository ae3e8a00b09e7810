import Inventory.Entity
import Inventory.Proofs.Collections
import Inventory.Proofs.Json.Values

/-!
# Inventory.Proofs.Entity

An entity is read from its serialised form, and from every other order of its fields.

The fields of an object are taken one after another, each into a place of its own, so two of them may
change places (`Fields.take?_comm`), and a field of another name is taken without a change. Hence what is
read depends only on which of the named fields are there (`parse?_objectText_congr`).
-/

namespace Inventory

/-! ## Containers from their lists -/

@[simp] theorem StringSet.ofList_toList (s : StringSet) : (.ofList s.toList : StringSet) = s :=
  Std.ExtTreeSet.ext_mem fun x => by simp

/-- A map is what its entries make when they are put into an empty one. -/
theorem StringMap.foldl_insert_toList {α : Type} (m : StringMap α) :
    m.toList.foldl (fun m p => m.insert p.1 p.2) (∅ : StringMap α) = m := by
  refine Std.ExtTreeMap.ext_getElem? fun key => ?_
  have hview := StringMap.foldl_list_at (fun (m : StringMap α) k => m[k]?) (fun _ a _ => some a)
    (fun m k a => m.insert k a) (fun m k a k' => by simp [Std.ExtTreeMap.getElem?_insert]) m.toList
    m.nodup_map_fst_toList ∅ key
  rw [hview, StringMap.lookup_toList]
  cases m[key]? <;> simp

/-- A fold whose steps may change places, refusals included, does not depend on the order. -/
theorem foldlM_perm {α β : Type} {f : β → α → Option β}
    (hcomm : ∀ b x y, (f b x).bind (f · y) = (f b y).bind (f · x)) {l l' : List α} (h : l.Perm l')
    (b : β) : l.foldlM f b = l'.foldlM f b := by
  induction h generalizing b with
  | nil => rfl
  | cons x _ ih => simp only [List.foldlM_cons, ih]
  | swap x y l =>
      have hswap := congrArg (·.bind fun b => l.foldlM f b) (hcomm b y x)
      simpa only [List.foldlM_cons, Option.bind_eq_bind, Option.bind_assoc] using hswap
  | trans _ _ ih ih' => rw [ih, ih']

/-! ## Texts of objects -/

namespace Json

/-- The object of some names with a text behind each, in that order. -/
def objectText (fields : List (String × List Char)) : String :=
  String.ofList ('\x7b' ::
    ([','].intercalate (fields.map fun f => Token.quote f.1 ++ ':' :: f.2) ++ ['\x7d']))

/-- The document that a text denotes, if it denotes one. -/
def documentOf (input : List Char) : Document := (Document.parse? (String.ofList input)).getD .null

theorem Denotes.documentOf_eq {input : List Char} {d : Document} (h : Denotes input d) :
    documentOf input = d := by
  rw [Denotes] at h
  rw [documentOf, h, Option.getD_some]

theorem parse?_objectText {fields : List (String × List Char)}
    (h : ∀ f ∈ fields, ∃ d, Denotes f.2 d) :
    Document.parse? (objectText fields) =
      some (.object (fields.map fun f => (some f.1, documentOf f.2))) := by
  refine denotes_object fun f hf => ?_
  obtain ⟨d, hd⟩ := h f hf
  rw [hd.documentOf_eq]
  exact hd

theorem text_object (fields : Attributes) :
    (object fields).text = objectText (fields.map fun f => (f.1, f.2.chars)) := by
  have hchars := chars_object fields
  simp only [chars] at hchars
  simp only [text, Token.textOf, objectText, hchars, List.map_map, Function.comp_def, chars]

end Json

namespace Entity

open Json (Denotes objectText documentOf)

/-! ## Taking fields -/

namespace Fields

/-- The names of the fields of an entity. -/
def names : List String := ["id", "attributes", "relationships", "ttl_seconds"]

section Places

variable {α β : Type} {get : Fields → Option α} {set : Fields → α → Fields}
  {get' : Fields → Option β} {set' : Fields → β → Fields}

/-- Puts what was read into its place, unless something is there. -/
def fill (get : Fields → Option α) (set : Fields → α → Fields) (read : Option α) (f : Fields) :
    Option Fields :=
  if (get f).isSome then none else read.map (set f)

/-- A place is filled once. -/
theorem fill_again (hset : ∀ f v, (get (set f v)).isSome) (f : Fields) (read read' : Option α) :
    (fill get set read f).bind (fill get set read') = none := by
  unfold fill
  cases read with
  | none => simp
  | some v => by_cases h : (get f).isSome <;> simp [h, hset]

/-- Two places may be filled in any order. -/
theorem fill_comm (hget : ∀ f v, get' (set f v) = get' f) (hget' : ∀ f v, get (set' f v) = get f)
    (hset : ∀ f v w, set' (set f v) w = set (set' f w) v) (f : Fields) (read : Option α)
    (read' : Option β) :
    (fill get set read f).bind (fill get' set' read') =
      (fill get' set' read' f).bind (fill get set read) := by
  unfold fill
  by_cases h : (get f).isSome <;> by_cases h' : (get' f).isSome <;> cases read <;> cases read' <;>
    simp [h, h', hget, hget', hset]

end Places

/-- The name of a field tells its place and how it is read. -/
theorem take?_eq_fill (f : Fields) (d : Json.Document) :
    take? f (some "id", d) = fill id (fun f v => { f with id := some v }) (readId? d) f ∧
    take? f (some "attributes", d) =
      fill attributes (fun f v => { f with attributes := some v }) (readAttributes? d) f ∧
    take? f (some "relationships", d) =
      fill relationships (fun f v => { f with relationships := some v }) (readRelationships? d) f ∧
    take? f (some "ttl_seconds", d) = fill ttl (fun f v => { f with ttl := some v }) (readTtl? d) f :=
  ⟨rfl, rfl, rfl, rfl⟩

/-- A field of another name is skipped, whatever it holds. -/
theorem take?_of_not_mem {name : String} (h : name ∉ names) (f : Fields) (d : Json.Document) :
    take? f (some name, d) = some f := by
  simp only [names, List.mem_cons, List.not_mem_nil, or_false, not_or] at h
  simp [take?, h]

/-- Two fields may change places, whether they are taken or refused. -/
theorem take?_comm (f : Fields) (p q : String × Json.Document) :
    (take? f (some p.1, p.2)).bind (take? · (some q.1, q.2)) =
      (take? f (some q.1, q.2)).bind (take? · (some p.1, p.2)) := by
  obtain ⟨m, d⟩ := p
  obtain ⟨n, d'⟩ := q
  by_cases hm : m ∈ names
  · by_cases hn : n ∈ names
    · simp only [names, List.mem_cons, List.not_mem_nil, or_false] at hm hn
      rcases hm with rfl | rfl | rfl | rfl <;> rcases hn with rfl | rfl | rfl | rfl <;>
        simp only [take?_eq_fill] <;>
        first
        | rw [fill_again fun _ _ => rfl, fill_again fun _ _ => rfl]
        | apply fill_comm <;> intros <;> rfl
    · simp [take?_of_not_mem hn]
  · simp [take?_of_not_mem hm]

/-- Taking fields is taking those with the names of an entity. -/
theorem foldlM_filter (fields : List (String × List Char)) (f : Fields) :
    fields.foldlM (fun f p => take? f (some p.1, documentOf p.2)) f =
      (fields.filter (·.1 ∈ names)).foldlM (fun f p => take? f (some p.1, documentOf p.2)) f := by
  induction fields generalizing f with
  | nil => rfl
  | cons p fields ih =>
      by_cases hp : p.1 ∈ names
      · simp [hp, ih]
      · simp [hp, take?_of_not_mem hp, ih]

end Fields

theorem parse?_objectText {fields : List (String × List Char)}
    (h : ∀ f ∈ fields, ∃ d, Denotes f.2 d) :
    parse? (objectText fields) =
      ((fields.filter (·.1 ∈ Fields.names)).foldlM
        (fun f p => Fields.take? f (some p.1, documentOf p.2)) {}).bind Fields.entity? := by
  rw [parse?, Json.parse?_objectText h, Option.bind_some, ofDocument?, List.foldlM_map,
    Fields.foldlM_filter]

/-- What is read does not depend on the order of the fields, nor on the fields of other names. -/
theorem parse?_objectText_congr {fields fields' : List (String × List Char)}
    (h : ∀ f ∈ fields, ∃ d, Denotes f.2 d) (h' : ∀ f ∈ fields', ∃ d, Denotes f.2 d)
    (hperm : (fields.filter (·.1 ∈ Fields.names)).Perm (fields'.filter (·.1 ∈ Fields.names))) :
    parse? (objectText fields) = parse? (objectText fields') := by
  rw [parse?_objectText h, parse?_objectText h']
  exact congrArg (·.bind Fields.entity?)
    (foldlM_perm (fun f p q => Fields.take?_comm f (p.1, documentOf p.2) (q.1, documentOf q.2)) hperm _)

/-! ## Reading the fields of an entity -/

theorem texts?_documents (l : List String) : texts? (Json.documents (l.map .string)) = some l := by
  induction l with
  | nil => rfl
  | cons s l ih => simp [Json.documents, Json.document, texts?, ih]

theorem relationships?_documents (l : List (String × StringSet)) (done : Relationships) :
    relationships? done (Json.fieldDocuments (l.map fun p => (p.1, Json.ofTexts p.2.toList))) =
      some (l.foldl (fun r p => r.insert p.1 p.2) done) := by
  induction l generalizing done with
  | nil => rfl
  | cons p l ih =>
      simp only [List.map_cons, Json.fieldDocuments, Json.ofTexts, Json.document, relationships?,
        texts?_documents, Option.bind_some, StringSet.ofList_toList, List.foldl_cons]
      exact ih _

theorem readRelationships?_document (r : Relationships) :
    Fields.readRelationships? (relationshipsJson r).document = some r := by
  rw [relationshipsJson, Json.document, Fields.readRelationships?, relationships?_documents,
    StringMap.foldl_insert_toList]

theorem seconds_inRange (seconds : UInt64) :
    (0 : Int) ≤ seconds.toNat ∧ (seconds.toNat : Int) < UInt64.size :=
  ⟨Int.natCast_nonneg _, Int.ofNat_lt.2 seconds.toNat_lt⟩

/-- A time to live is read over the whole range of its type. -/
theorem readTtl?_document (seconds : UInt64) :
    Fields.readTtl? (Json.ofNat seconds.toNat).document = some (some seconds) := by
  rw [Json.ofNat, Json.document, Fields.readTtl?, if_pos (seconds_inRange seconds), Int.toNat_natCast,
    UInt64.ofNat_toNat]

theorem readAttributes?_document {a : Attributes} (h : (Json.object a).Fits (Json.maxDepth - 1)) :
    Fields.readAttributes? (Json.object a).document = some a := by
  rw [Fields.readAttributes?, h.value?_document]

/-! ## The serialised form -/

/-- The fields of the serialised form of an entity, in the order in which they are written. -/
def fields (e : Entity) : Attributes :=
  match e.json with
  | .object fields => fields
  | _ => []

/-- The texts of these fields, each with its name. -/
def fieldTexts (e : Entity) : List (String × List Char) := e.fields.map fun f => (f.1, f.2.chars)

theorem json_eq (e : Entity) : e.json = .object e.fields := rfl

theorem text_json (e : Entity) : e.json.text = objectText e.fieldTexts := Json.text_object e.fields

theorem names_fields (e : Entity) : e.fields.names.Sublist Fields.names := by
  obtain ⟨id, attributes, relationships, ttl⟩ := e
  cases ttl with
  | none => exact .cons_cons _ (.cons_cons _ (.cons_cons _ (.cons _ .slnil)))
  | some seconds => exact .refl _

theorem ofDocument?_document {e : Entity} (h : (Json.object e.attributes).Fits (Json.maxDepth - 1)) :
    ofDocument? e.json.document = some e := by
  obtain ⟨id, attributes, relationships, ttl⟩ := e
  have hid : Fields.readId? (Json.string id).document = some id := rfl
  rw [json_eq, Json.document, Json.fieldDocuments_eq_map, ofDocument?]
  cases ttl <;>
    simp [fields, json, Fields.take?_eq_fill, Fields.fill, hid, readAttributes?_document h,
      readRelationships?_document, readTtl?_document, Fields.entity?]

theorem fits_relationshipsJson (r : Relationships) : (relationshipsJson r).Fits (Json.maxDepth - 1) := by
  have hids : ∀ ids : StringSet, (Json.ofTexts ids.toList).Fits (Json.maxDepth - 2) := fun ids =>
    .array (List.forall_mem_map.2 fun _ _ => .string)
  refine .object ?_ (List.forall_mem_map.2 fun p _ => hids p.2)
  rw [Attributes.names, List.map_map]
  exact r.nodup_map_fst_toList

theorem fits_seconds {room : Nat} (seconds : UInt64) : (Json.ofNat seconds.toNat).Fits room :=
  .integer ⟨Int.le_trans (by decide) (seconds_inRange seconds).1, (seconds_inRange seconds).2⟩

/-- How deep the text of an entity nests is a matter of its attributes alone. -/
theorem fits_json {e : Entity} :
    e.json.Fits Json.maxDepth ↔ (Json.object e.attributes).Fits (Json.maxDepth - 1) := by
  constructor
  · intro h
    rw [json_eq] at h
    cases h with
    | object _ hfields => exact hfields ("attributes", .object e.attributes) (by simp [fields, json])
  · intro h
    refine .object (e.names_fields.nodup (by decide)) (List.forall_mem_append.2 ⟨?_, ?_⟩)
    · exact List.forall_mem_cons.2 ⟨.string, List.forall_mem_cons.2
        ⟨h, List.forall_mem_singleton.2 (fits_relationshipsJson e.relationships)⟩⟩
    · cases e.ttl with
      | none => exact List.forall_mem_nil _
      | some seconds => exact List.forall_mem_singleton.2 (fits_seconds seconds)

theorem parse?_text {e : Entity} (h : e.json.Fits Json.maxDepth) : parse? e.json.text = some e := by
  have hdocument : Json.Document.parse? e.json.text = some e.json.document := h.denotes
  rw [parse?, hdocument]
  exact ofDocument?_document (fits_json.1 h)

theorem denotes_fieldTexts {e : Entity} (h : e.json.Fits Json.maxDepth) :
    ∀ f ∈ e.fieldTexts, ∃ d, Denotes f.2 d := by
  rw [json_eq] at h
  cases h with
  | object _ hfields => exact List.forall_mem_map.2 fun f hf => ⟨_, (hfields f hf).denotes⟩

theorem filter_fieldTexts (e : Entity) : e.fieldTexts.filter (·.1 ∈ Fields.names) = e.fieldTexts := by
  rw [List.filter_eq_self]
  refine List.forall_mem_map.2 fun f hf => decide_eq_true ?_
  exact e.names_fields.subset (List.mem_map_of_mem hf)

/-- An entity is read from its text, with its attributes in order, and from the texts of its fields in any
order, with fields of other names between them. -/
theorem parse?_serialised {e : Entity} (h : e.json.Fits Json.maxDepth) :
    parse? e.json.text = some e ∧
      (parse? e.json.text).map (fun e => e.json.text) = some e.json.text ∧
      e.json.text = objectText e.fieldTexts ∧
      ∀ fields : List (String × List Char), (∀ f ∈ fields, ∃ d, Denotes f.2 d) →
        (fields.filter (·.1 ∈ Fields.names)).Perm e.fieldTexts →
          parse? (objectText fields) = some e := by
  have hread := parse?_text h
  refine ⟨hread, by rw [hread, Option.map_some], e.text_json, fun fields hfields hperm => ?_⟩
  rw [parse?_objectText_congr hfields (denotes_fieldTexts h) (by rwa [filter_fieldTexts]), ← text_json]
  exact hread

/-- An entity with an empty set of related entities that lives as long as one can. -/
def lasting : Entity :=
  { id := "k\n", attributes := [("z", .array [.number (.int 18446744073709551615)]), ("a", .string "\"é")],
    relationships := (∅ : Relationships).insert "r" ∅, ttl := some 18446744073709551615 }

theorem fits_lasting : lasting.json.Fits Json.maxDepth := by
  have hitems : (Json.array [.number (.int 18446744073709551615)]).Fits 125 :=
    .array (List.forall_mem_singleton.2 (.integer (by decide)))
  exact fits_json.2 (.object (by decide)
    (List.forall_mem_cons.2 ⟨hitems, List.forall_mem_singleton.2 .string⟩))

/-- The entity is read with its fields turned around and one of another name in front. -/
theorem parse?_serialised_lasting : lasting.json.Fits Json.maxDepth ∧
    parse? lasting.json.text = some lasting ∧
    parse? (objectText (("extra", (Json.array [.null]).chars) :: lasting.fieldTexts.reverse)) =
      some lasting := by
  obtain ⟨hread, -, -, hany⟩ := parse?_serialised fits_lasting
  refine ⟨fits_lasting, hread, hany _ ?_ ?_⟩
  · have hextra : (Json.array [.null]).Fits Json.maxDepth := .array (List.forall_mem_singleton.2 .null)
    refine List.forall_mem_cons.2 ⟨⟨_, hextra.denotes⟩, fun f hf => ?_⟩
    exact denotes_fieldTexts fits_lasting f (List.mem_reverse.1 hf)
  · rw [List.filter_cons_of_neg (by decide), List.filter_reverse, filter_fieldTexts]
    exact List.reverse_perm _

end Entity

end Inventory
