import Inventory.Proofs.Json.Tokens

/-!
# Inventory.Proofs.Json.Documents

What a text denotes is found from what its parts denote.

The machine that builds a document from tokens does the same with what comes inside of open containers as
with a whole text (`foldlM_within`), so tokens form a document wherever a value may come (`Forms`). Hence a
text in brackets or in braces denotes what the texts between its commas do (`Denotes.array` and
`Denotes.object`), whatever these hold.
-/

namespace Inventory.Json

theorem intercalate_cons_eq_append_flatMap {α : Type} (separator part : List α) (parts : List (List α)) :
    separator.intercalate (part :: parts) = part ++ parts.flatMap (separator ++ ·) := by
  induction parts generalizing part with
  | nil => simp
  | cons next parts ih => rw [List.intercalate_cons_cons, ih]; simp

/-! ## Tokens inside of open containers -/

namespace Document

variable {d : Document} {tokens rest : List Token}

/-- What has been read, inside of more open containers. -/
def Progress.within (outer : List Frame) : Progress → Progress
  | .value enclosing => .value (enclosing ++ outer)
  | .valueOrEnd enclosing => .valueOrEnd (enclosing ++ outer)
  | .afterItem done enclosing => .afterItem done (enclosing ++ outer)
  | .nameOrEnd enclosing => .nameOrEnd (enclosing ++ outer)
  | .name done enclosing => .name done (enclosing ++ outer)
  | .colon done field enclosing => .colon done field (enclosing ++ outer)
  | .afterField done enclosing => .afterField done (enclosing ++ outer)
  | .complete d => give d outer

theorem within_give (d : Document) (enclosing outer : List Frame) :
    (give d enclosing).within outer = give d (enclosing ++ outer) := by
  cases enclosing with
  | nil => rfl
  | cons frame enclosing => cases frame <;> rfl

theorem takeValue?_within (enclosing outer : List Frame) (token : Token) :
    takeValue? (enclosing ++ outer) token = (takeValue? enclosing token).map (·.within outer) := by
  cases token <;> simp [takeValue?, within_give] <;> rfl

/-- Unless a document is complete, a token is taken inside of open containers as it is outside. -/
theorem take?_within {p : Progress} (hp : ∀ d, p ≠ .complete d) (outer : List Frame) (token : Token) :
    take? (p.within outer) token = (take? p token).map (·.within outer) := by
  cases p with
  | complete d => exact absurd rfl (hp d)
  | value enclosing => exact takeValue?_within enclosing outer token
  | valueOrEnd enclosing =>
      have hvalue := takeValue?_within (.items [] :: enclosing) outer token
      cases token with
      | closeArray => exact congrArg some (within_give (.array []) enclosing outer).symm
      | _ => exact hvalue
  | afterItem done enclosing =>
      cases token with
      | closeArray => exact congrArg some (within_give (.array done.reverse) enclosing outer).symm
      | _ => rfl
  | nameOrEnd enclosing =>
      cases token with
      | closeObject => exact congrArg some (within_give (.object []) enclosing outer).symm
      | _ => rfl
  | afterField done enclosing =>
      cases token with
      | closeObject => exact congrArg some (within_give (.object done.reverse) enclosing outer).symm
      | _ => rfl
  | _ => cases token <;> rfl

/-- What completes a document completes it inside of open containers too. -/
theorem foldlM_within {p : Progress} (h : tokens.foldlM take? p = some (.complete d))
    (outer : List Frame) (rest : List Token) :
    (tokens ++ rest).foldlM take? (p.within outer) = rest.foldlM take? (give d outer) := by
  induction tokens generalizing p with
  | nil =>
      obtain rfl := Option.some.inj h
      rfl
  | cons token tokens ih =>
      have hp : ∀ d, p ≠ .complete d := by
        rintro d rfl
        simp [take?] at h
      simp only [List.foldlM_cons, Option.bind_eq_bind, Option.bind_eq_some_iff] at h
      obtain ⟨q, hq, hrest⟩ := h
      simp only [List.cons_append, List.foldlM_cons, take?_within hp, hq, Option.map_some,
        Option.bind_eq_bind, Option.bind_some]
      exact ih hrest

/-! ## Tokens that form a document -/

/-- Whether tokens form a document wherever a value may come. -/
def Forms (tokens : List Token) (d : Document) : Prop :=
  ∀ enclosing rest,
    (tokens ++ rest).foldlM take? (.value enclosing) = rest.foldlM take? (give d enclosing)

theorem ofTokens?_eq_some_iff : ofTokens? tokens = some d ↔ Forms tokens d := by
  constructor
  · intro h enclosing rest
    have hcomplete : tokens.foldlM take? (.value []) = some (.complete d) := by
      unfold ofTokens? at h
      split at h
      · next heq => rw [heq, Option.some.inj h]
      · contradiction
    exact foldlM_within hcomplete enclosing rest
  · intro h
    have hcomplete := h [] []
    rw [List.append_nil] at hcomplete
    rw [ofTokens?, hcomplete]
    rfl

/-- What forms a document does not end an array that has no items yet. -/
theorem Forms.first (h : Forms tokens d) (enclosing : List Frame) (rest : List Token) :
    (tokens ++ rest).foldlM take? (.valueOrEnd enclosing) =
      rest.foldlM take? (give d (.items [] :: enclosing)) := by
  have hwhole := h [] []
  rw [← h]
  cases tokens with
  | nil => simp [give] at hwhole
  | cons token tokens =>
      cases token with
      | closeArray => simp [take?, takeValue?, give] at hwhole
      | _ => rfl

/-- The items of an array after its first, each behind its comma. -/
theorem foldlM_laterItems {parts : List (List Token × Document)} (h : ∀ p ∈ parts, Forms p.1 p.2)
    (done : List Document) (enclosing : List Frame) (rest : List Token) :
    (parts.flatMap (fun p => .comma :: p.1) ++ .closeArray :: rest).foldlM take?
        (.afterItem done enclosing) =
      rest.foldlM take? (give (.array (done.reverse ++ parts.map Prod.snd)) enclosing) := by
  induction parts generalizing done with
  | nil => simp [take?]
  | cons p parts ih =>
      rw [List.forall_mem_cons] at h
      simp only [List.flatMap_cons, List.append_assoc, List.cons_append, List.foldlM_cons]
      have hitem := h.1 (.items done :: enclosing)
        (parts.flatMap (fun p => .comma :: p.1) ++ .closeArray :: rest)
      refine hitem.trans ((ih h.2 (p.2 :: done)).trans ?_)
      simp

theorem forms_array (parts : List (List Token × Document)) (h : ∀ p ∈ parts, Forms p.1 p.2) :
    Forms (.openArray :: ([.comma].intercalate (parts.map Prod.fst) ++ [.closeArray]))
      (.array (parts.map Prod.snd)) := by
  intro enclosing rest
  cases parts with
  | nil => rfl
  | cons p parts =>
      rw [List.forall_mem_cons] at h
      simp only [List.map_cons, intercalate_cons_eq_append_flatMap, List.flatMap_map, List.append_assoc,
        List.cons_append, List.nil_append]
      refine (h.1.first enclosing _).trans ?_
      exact (foldlM_laterItems h.2 [p.2] enclosing rest)

/-- The fields of an object after its first, each behind its comma. -/
theorem foldlM_laterFields {parts : List (Option String × List Token × Document)}
    (h : ∀ p ∈ parts, Forms p.2.1 p.2.2) (done : List (Option String × Document))
    (enclosing : List Frame) (rest : List Token) :
    (parts.flatMap (fun p => .comma :: .string p.1 :: .colon :: p.2.1) ++ .closeObject :: rest).foldlM
        take? (.afterField done enclosing) =
      rest.foldlM take? (give (.object (done.reverse ++ parts.map fun p => (p.1, p.2.2))) enclosing) := by
  induction parts generalizing done with
  | nil => simp [take?]
  | cons p parts ih =>
      rw [List.forall_mem_cons] at h
      simp only [List.flatMap_cons, List.append_assoc, List.cons_append, List.foldlM_cons]
      have hfield := h.1 (.field done p.1 :: enclosing)
        (parts.flatMap (fun p => .comma :: .string p.1 :: .colon :: p.2.1) ++ .closeObject :: rest)
      refine hfield.trans ((ih h.2 ((p.1, p.2.2) :: done)).trans ?_)
      simp

theorem forms_object (parts : List (Option String × List Token × Document))
    (h : ∀ p ∈ parts, Forms p.2.1 p.2.2) :
    Forms (.openObject :: ([.comma].intercalate (parts.map fun p => .string p.1 :: .colon :: p.2.1) ++
        [.closeObject]))
      (.object (parts.map fun p => (p.1, p.2.2))) := by
  intro enclosing rest
  cases parts with
  | nil => rfl
  | cons p parts =>
      rw [List.forall_mem_cons] at h
      simp only [List.map_cons, intercalate_cons_eq_append_flatMap, List.flatMap_map, List.append_assoc,
        List.cons_append, List.nil_append]
      refine (h.1 (.field [] p.1 :: enclosing) _).trans ?_
      exact foldlM_laterFields h.2 [(p.1, p.2.2)] enclosing rest

end Document

/-! ## Texts between commas -/

namespace Token

/-- Texts with commas between them are read as the tokens of each with commas between them. -/
theorem reads_intercalate (parts : List (List Char × List Token)) (h : ∀ p ∈ parts, Reads p.1 p.2)
    {close : Token} (hclose : close = closeArray ∨ close = closeObject) :
    Reads ([','].intercalate (parts.map Prod.fst) ++ close.text)
      ([comma].intercalate (parts.map Prod.snd) ++ [close]) := by
  have hstands : close.Stands ∧ Numeral.Bounds close.text := by
    rcases hclose with rfl | rfl <;> exact ⟨trivial, by simp [Numeral.Bounds, text]⟩
  have hlater : ∀ parts : List (List Char × List Token), (∀ p ∈ parts, Reads p.1 p.2) →
      Reads (parts.flatMap (fun p => ',' :: p.1) ++ close.text)
          (parts.flatMap (fun p => comma :: p.2) ++ [close]) ∧
        Numeral.Bounds (parts.flatMap (fun p => ',' :: p.1) ++ close.text) := by
    intro parts h
    induction parts with
    | nil => exact ⟨reads_text close hstands.1, hstands.2⟩
    | cons p parts ih =>
        rw [List.forall_mem_cons] at h
        obtain ⟨hreads, hbounds⟩ := ih h.2
        simp only [List.flatMap_cons, List.append_assoc, List.cons_append]
        exact ⟨Reads.token_cons comma trivial (h.1.append hbounds hreads),
          by simp [Numeral.Bounds]⟩
  cases parts with
  | nil => exact reads_text close hstands.1
  | cons p parts =>
      rw [List.forall_mem_cons] at h
      obtain ⟨hreads, hbounds⟩ := hlater parts h.2
      simp only [List.map_cons, intercalate_cons_eq_append_flatMap, List.flatMap_map, List.append_assoc]
      exact h.1.append hbounds hreads

end Token

/-! ## Texts and their documents -/

open Token (Reads)
open Document (Forms)

/-- Whether a text denotes a document. -/
def Denotes (input : List Char) (d : Document) : Prop := Document.parse? (String.ofList input) = some d

variable {input : List Char} {d : Document}

theorem denotes_iff : Denotes input d ↔ ∃ tokens, Reads input tokens ∧ Forms tokens d := by
  simp only [Denotes, Document.parse?, Token.ofText?, String.toList_ofList, Option.bind_eq_some_iff,
    Document.ofTokens?_eq_some_iff]
  rfl

/-- Some texts that denote documents, with tokens for each. -/
theorem exists_tokens {α : Type} {text : α → List Char} {document : α → Document} {l : List α}
    (h : ∀ x ∈ l, Denotes (text x) (document x)) :
    ∃ tokens : α → List Token,
      ∀ x ∈ l, Reads (text x) (tokens x) ∧ Forms (tokens x) (document x) := by
  refine ⟨fun x => ((Token.ofText? (String.ofList (text x)))).getD [], fun x hx => ?_⟩
  obtain ⟨tokens, hreads, hforms⟩ := denotes_iff.1 (h x hx)
  have htokens : Token.ofText? (String.ofList (text x)) = some tokens := by
    rw [Token.ofText?, String.toList_ofList]
    exact hreads
  simp only [htokens, Option.getD_some]
  exact ⟨hreads, hforms⟩

/-- Texts in brackets denote the array of what they denote. -/
theorem denotes_array {α : Type} {text : α → List Char} {document : α → Document} {l : List α}
    (h : ∀ x ∈ l, Denotes (text x) (document x)) :
    Denotes ('[' :: ([','].intercalate (l.map text) ++ [']'])) (.array (l.map document)) := by
  obtain ⟨tokens, htokens⟩ := exists_tokens h
  have hreads := Token.reads_intercalate (l.map fun x => (text x, tokens x))
    (List.forall_mem_map.2 fun x hx => (htokens x hx).1) (.inl rfl)
  have hforms := Document.forms_array (l.map fun x => (tokens x, document x))
    (List.forall_mem_map.2 fun x hx => (htokens x hx).2)
  simp only [List.map_map, Function.comp_def] at hreads hforms
  exact denotes_iff.2 ⟨_, Reads.token_cons .openArray trivial hreads, hforms⟩

/-- Texts in braces, each behind its name, denote the object of what they denote. -/
theorem denotes_object {α : Type} {name : α → String} {text : α → List Char} {document : α → Document}
    {l : List α} (h : ∀ x ∈ l, Denotes (text x) (document x)) :
    Denotes ('\x7b' :: ([','].intercalate (l.map fun x => Token.quote (name x) ++ ':' :: text x) ++
        ['\x7d']))
      (.object (l.map fun x => (some (name x), document x))) := by
  obtain ⟨tokens, htokens⟩ := exists_tokens h
  have hfield : ∀ x ∈ l, Reads (Token.quote (name x) ++ ':' :: text x)
      (.string (some (name x)) :: .colon :: tokens x) := fun x hx =>
    Reads.token_cons (.string (some (name x))) trivial
      (Reads.token_cons .colon trivial (htokens x hx).1)
  have hreads := Token.reads_intercalate (l.map fun x =>
    (Token.quote (name x) ++ ':' :: text x, .string (some (name x)) :: .colon :: tokens x))
    (List.forall_mem_map.2 hfield) (.inr rfl)
  have hforms := Document.forms_object (l.map fun x => (some (name x), tokens x, document x))
    (List.forall_mem_map.2 fun x hx => (htokens x hx).2)
  simp only [List.map_map, Function.comp_def] at hreads hforms
  exact denotes_iff.2 ⟨_, Reads.token_cons .openObject trivial hreads, hforms⟩

end Inventory.Json
