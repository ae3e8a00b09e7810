import Inventory.Proofs.Json.Documents

/-!
# Inventory.Proofs.Json.Values

A value is read from its text.

The text of a value denotes the document of that value (`Fits.denotes`), and a document of a value has that
value (`Fits.value?_document`): the names of an object come back in order, since none is there twice. Numbers
are asked to be integers, and no more containers may be nested in one another than a reader allows.
-/

namespace Inventory

theorem Attributes.insert_of_not_mem {name : String} {fields : Attributes} (h : name ∉ fields.names)
    (value : Json) : fields.insert name value = fields ++ [(name, value)] := by
  induction fields with
  | nil => rfl
  | cons field fields ih =>
      obtain ⟨first, v⟩ := field
      rw [names, List.map_cons, List.mem_cons, not_or] at h
      rw [insert, if_neg (Ne.symm h.1), ih h.2, List.cons_append]

namespace Json

/-! ## Values that are read back -/

/-- Whether a value nests no more than `room` containers, has no numbers but integers that are kept as such,
and has no object that holds a name twice. -/
inductive Fits : Nat → Json → Prop where
  | null {room : Nat} : Fits room .null
  | bool {room : Nat} {b : Bool} : Fits room (.bool b)
  | integer {room : Nat} {n : Int} (hrange : Number.InRange n) : Fits room (.number (.int n))
  | string {room : Nat} {s : String} : Fits room (.string s)
  | array {room : Nat} {items : List Json} (hitems : ∀ v ∈ items, Fits room v) :
      Fits (room + 1) (.array items)
  | object {room : Nat} {fields : Attributes} (hnames : fields.names.Nodup)
      (hfields : ∀ f ∈ fields, Fits room f.2) : Fits (room + 1) (.object fields)

/-! ## Texts of values -/

mutual

/-- The document of a value. -/
def document : Json → Document
  | .null => .null
  | .bool b => .bool b
  | .number n => .number (some n)
  | .string s => .string (some s)
  | .array items => .array (documents items)
  | .object fields => .object (fieldDocuments fields)
termination_by structural v => v

/-- The documents of the items of an array. -/
def documents : List Json → List Document
  | [] => []
  | v :: rest => v.document :: documents rest
termination_by structural l => l

/-- The documents of the fields of an object, each with its name. -/
def fieldDocuments : List (String × Json) → List (Option String × Document)
  | [] => []
  | (name, v) :: rest => (some name, v.document) :: fieldDocuments rest
termination_by structural l => l

end

theorem documents_eq_map (items : List Json) : documents items = items.map document := by
  induction items with
  | nil => rfl
  | cons v items ih => rw [documents, ih, List.map_cons]

theorem fieldDocuments_eq_map (fields : List (String × Json)) :
    fieldDocuments fields = fields.map fun f => (some f.1, f.2.document) := by
  induction fields with
  | nil => rfl
  | cons f fields ih => rw [fieldDocuments, ih, List.map_cons]

theorem itemTokens_eq_intercalate (items : List Json) :
    itemTokens items = [.comma].intercalate (items.map tokens) := by
  have hlater : ∀ items, laterItemTokens items = (items.map tokens).flatMap ([.comma] ++ ·) := by
    intro items
    induction items with
    | nil => rfl
    | cons v items ih => simp [laterItemTokens, ih]
  cases items with
  | nil => rfl
  | cons v items => rw [itemTokens, hlater, List.map_cons, intercalate_cons_eq_append_flatMap]

theorem fieldTokens_eq_intercalate (fields : List (String × Json)) :
    fieldTokens fields =
      [.comma].intercalate (fields.map fun f => .string (some f.1) :: .colon :: f.2.tokens) := by
  have hlater : ∀ fields, laterFieldTokens fields = (fields.map fun f : String × Json =>
      Token.string (some f.1) :: .colon :: f.2.tokens).flatMap ([.comma] ++ ·) := by
    intro fields
    induction fields with
    | nil => rfl
    | cons f fields ih => simp [laterFieldTokens, ih]
  cases fields with
  | nil => rfl
  | cons f fields =>
      rw [fieldTokens, hlater, List.map_cons, intercalate_cons_eq_append_flatMap]

theorem flatMap_intercalate {α β : Type} (f : α → List β) (separator : List α) (parts : List (List α)) :
    (separator.intercalate parts).flatMap f =
      (separator.flatMap f).intercalate (parts.map (·.flatMap f)) := by
  cases parts with
  | nil => rfl
  | cons part parts =>
      rw [intercalate_cons_eq_append_flatMap, List.map_cons, intercalate_cons_eq_append_flatMap]
      simp [List.flatMap_map, List.flatMap_assoc]

/-- The characters of the text of a value. -/
def chars (v : Json) : List Char := v.tokens.flatMap Token.text

theorem chars_array (items : List Json) :
    (array items).chars = '[' :: ([','].intercalate (items.map chars) ++ [']']) := by
  simp only [chars, tokens, itemTokens_eq_intercalate]
  simp [flatMap_intercalate, Token.text, Function.comp_def]
  rfl

theorem chars_object (fields : List (String × Json)) :
    (object fields).chars = '\x7b' ::
      ([','].intercalate (fields.map fun f => Token.quote f.1 ++ ':' :: f.2.chars) ++ ['\x7d']) := by
  simp only [chars, tokens, fieldTokens_eq_intercalate]
  simp [flatMap_intercalate, Token.text, Function.comp_def]

/-- The text of a value denotes the document of the value. -/
theorem Fits.denotes {room : Nat} {v : Json} (h : Fits room v) : Denotes v.chars v.document := by
  have hsingle : ∀ (token : Token) (d : Document), token.Stands →
      Document.Forms [token] d → Denotes ([token].flatMap Token.text) d := by
    intro token d htoken hforms
    rw [List.flatMap_singleton]
    exact denotes_iff.2 ⟨[token], Token.reads_text token htoken, hforms⟩
  induction h with
  | null => exact hsingle .null .null trivial fun _ _ => rfl
  | bool => exact hsingle (.bool _) (.bool _) trivial fun _ _ => rfl
  | string => exact hsingle (.string (some _)) (.string _) trivial fun _ _ => rfl
  | @integer room n hrange =>
      have hchars : (number (.int n)).chars = (Number.int n).text := List.append_nil _
      rw [hchars]
      exact denotes_iff.2 ⟨[.number (some (.int n))], Token.reads_integer hrange, fun _ _ => rfl⟩
  | array hitems ih =>
      rw [chars_array, document, documents_eq_map]
      exact denotes_array ih
  | object hnames hfields ih =>
      rw [chars_object, document, fieldDocuments_eq_map]
      exact denotes_object ih

/-! ## Values of documents -/

theorem values?_documents {room : Nat} {items : List Json}
    (h : ∀ v ∈ items, Document.value? room v.document = some v) :
    Document.values? room (items.map document) = some items := by
  induction items with
  | nil => rfl
  | cons v items ih =>
      rw [List.forall_mem_cons] at h
      rw [List.map_cons, Document.values?, h.1, ih h.2]
      rfl

/-- Names that are there once come back in order, after those in `done`. -/
theorem fields?_documents {room : Nat} (done fields : Attributes)
    (h : ∀ f ∈ fields, Document.value? room f.2.document = some f.2)
    (hnames : (done ++ fields).names.Nodup) :
    Document.fields? room done (fields.map fun f => (some f.1, f.2.document)) = some (done ++ fields) := by
  induction fields generalizing done with
  | nil => rw [List.append_nil]; rfl
  | cons f fields ih =>
      obtain ⟨name, v⟩ := f
      rw [List.forall_mem_cons] at h
      have hnew : name ∉ done.names := by
        intro hmem
        rw [Attributes.names, List.map_append, List.nodup_append] at hnames
        exact hnames.2.2 name hmem name List.mem_cons_self rfl
      have happend : done ++ (name, v) :: fields = done ++ [(name, v)] ++ fields := by simp
      rw [happend] at hnames ⊢
      simp only [List.map_cons, Document.fields?, h.1, Attributes.insert_of_not_mem hnew]
      exact ih _ h.2 hnames

/-- A value is that of its document. -/
theorem Fits.value?_document {room : Nat} {v : Json} (h : Fits room v) :
    Document.value? room v.document = some v := by
  induction h with
  | array hitems ih =>
      rw [document, documents_eq_map, Document.value?, values?_documents ih]
      rfl
  | object hnames hfields ih =>
      rw [document, fieldDocuments_eq_map, Document.value?, fields?_documents [] _ ih hnames]
      rfl
  | _ => rfl

/-- What is written is read, and the names of all objects come back in order. -/
theorem Fits.parse?_text {v : Json} (h : Fits maxDepth v) : parse? v.text = some v := by
  have hdocument : Document.parse? v.text = some v.document := h.denotes
  rw [parse?, hdocument]
  exact h.value?_document

end Json

end Inventory
