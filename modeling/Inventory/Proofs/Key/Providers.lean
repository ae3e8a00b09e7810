import Inventory.Proofs.Key.Segments

/-!
# Inventory.Proofs.Key.Providers

Which parser reads a key.

Parsers are registered under the name of their provider, while a key is read by the parser registered
under its first segment as it is written there. The two names are the same unless the provider has a
separator or a percent sign in it (`Segment.escape_eq_self_iff`). Then the parser of the provider is passed
over, which makes no difference unless some parser is registered under the escaped name: that parser
refuses the key (`KeyParsers.parse_join_ofProviders`).
-/

namespace Inventory

namespace Segment

/-! ## Segments that are written as they are -/

@[simp] theorem escapeChar_eq_singleton_iff {c : Char} : escapeChar c = [c] ↔ c ≠ ':' ∧ c ≠ '%' := by
  unfold escapeChar
  by_cases hc : c = ':'
  · simp [hc]
  · by_cases hp : c = '%' <;> simp [hc, hp]

theorem length_escapeChar_pos (c : Char) : 1 ≤ (escapeChar c).length := by
  unfold escapeChar
  split
  · simp
  · split <;> simp

theorem length_le_flatMap_escapeChar (cs : List Char) : cs.length ≤ (cs.flatMap escapeChar).length := by
  induction cs with
  | nil => simp
  | cons c rest ih =>
      have hc := length_escapeChar_pos c
      simp only [List.flatMap_cons, List.length_append, List.length_cons]
      omega

/-- Escaping only makes a text longer, so it cannot leave one as it is by moving its characters. -/
theorem flatMap_escapeChar_eq_self_iff {cs : List Char} :
    cs.flatMap escapeChar = cs ↔ ':' ∉ cs ∧ '%' ∉ cs := by
  induction cs with
  | nil => simp
  | cons c rest ih =>
      by_cases hc : escapeChar c = [c]
      · obtain ⟨hcolon, hpercent⟩ := escapeChar_eq_singleton_iff.1 hc
        simp [hc, ih, Ne.symm hcolon, Ne.symm hpercent]
      · have hlong : 1 < (escapeChar c).length := by
          unfold escapeChar at hc ⊢
          grind
        have hrest := length_le_flatMap_escapeChar rest
        have hne : (c :: rest).flatMap escapeChar ≠ c :: rest := by
          intro h
          have hlength := congrArg List.length h
          simp only [List.flatMap_cons, List.length_append, List.length_cons] at hlength
          omega
        rw [escapeChar_eq_singleton_iff] at hc
        grind

theorem escape_eq_self_iff {s : String} : escape s = s ↔ ':' ∉ s.toList ∧ '%' ∉ s.toList := by
  rw [← flatMap_escapeChar_eq_self_iff, escape, ← String.toList_inj, String.toList_ofList]

end Segment

open Segment

@[simp] theorem KeyParser.toReader_parse (p : KeyParser) (s : String) : p.toReader.parse s = p.parse s := rfl

namespace KeyParsers

/-! ## Registered parsers -/

theorem parserFor_register (ps : KeyParsers) (p : KeyReader) (provider : String) :
    (ps.register p).parserFor provider = if p.provider = provider then p else ps.parserFor provider := by
  unfold register parserFor
  rw [Std.ExtTreeMap.getD_insert]
  by_cases h : p.provider = provider <;> simp [h]

/-- A provider has a parser of its own if it is one of those that were registered, in whatever order. -/
theorem parserFor_ofProviders (providers : List String) (provider : String) :
    (ofProviders providers).parserFor provider =
      if provider ∈ providers then (KeyParser.mk provider).toReader else KeyParser.any.toReader := by
  have hrun : ∀ (l : List String) (ps : KeyParsers),
      (l.foldl (fun ps p => ps.register (KeyParser.mk p)) ps).parserFor provider =
        if provider ∈ l then (KeyParser.mk provider).toReader else ps.parserFor provider := by
    intro l
    induction l with
    | nil => simp
    | cons p l ih =>
        intro ps
        rw [List.foldl_cons, ih, parserFor_register]
        by_cases hp : p = provider
        · simp [hp, KeyParser.toReader]
        · simp [hp, Ne.symm hp, KeyParser.toReader]
  rw [ofProviders, hrun, parserFor_empty]

theorem areCommon_ofProviders (providers : List String) : (ofProviders providers).AreCommon := by
  intro provider
  rw [parserFor_ofProviders]
  split
  · exact ⟨_, rfl⟩
  · exact ⟨_, rfl⟩

/-- The parser that is found under the name of a provider reads the keys of that provider. -/
theorem parserFor_parse_text {key : Key} (providers : List String) (h : "" ∉ key.segments) :
    ((ofProviders providers).parserFor key.provider).parse key.text = .ok key := by
  rw [parserFor_ofProviders]
  by_cases hown : key.provider ∈ providers <;> simp [hown, h, KeyParser.parse_text, KeyParser.any]

/-! ## The parser for the first segment as written -/

/-- The text of a key is read back, unless the escaped form of its provider is another name and a parser
is registered under it. -/
theorem parse_text_ofProviders {key : Key} (providers : List String) (h : "" ∉ key.segments) :
    (ofProviders providers).parse key.text =
      if escape key.provider ≠ key.provider ∧ escape key.provider ∈ providers then
        .error (.malformedKey key.text (.wrongProvider key.provider (escape key.provider)))
      else .ok key := by
  have hne : key.provider ≠ "" := fun hnone => h (by simp [Key.segments, hnone])
  have hescaped : escape key.provider ≠ "" := fun hnone => hne (escape_eq_empty_iff.1 hnone)
  rw [parse_text_eq _ hne, parserFor_ofProviders]
  by_cases hfound : escape key.provider ∈ providers
  · simp [hfound, h, hescaped, KeyParser.parse_text, eq_comm]
  · simp [hfound, h, KeyParser.parse_text, KeyParser.any]

/-- Segments are read back by the parser of the first of them, the provider. All parsers together read
them back as well, with one exception: if the provider has a separator or a percent sign in it, and its
escaped form is itself the name of a provider with a parser, that parser is asked and refuses the key. -/
theorem parse_join_ofProviders {provider : String} {rest : List String} (providers : List String)
    (hlength : Key.requiredSegments ≤ (provider :: rest).length) (hempty : "" ∉ provider :: rest) :
    ∃ key, key.segments = provider :: rest ∧
      ((ofProviders providers).parserFor provider).parse (join (provider :: rest)) = .ok key ∧
      (ofProviders providers).parse (join (provider :: rest)) =
        if (':' ∈ provider.toList ∨ '%' ∈ provider.toList) ∧ escape provider ∈ providers then
          .error (.malformedKey (join (provider :: rest)) (.wrongProvider provider (escape provider)))
        else .ok key := by
  obtain ⟨key, hkey⟩ := Key.exists_segments_eq hlength
  obtain rfl : key.provider = provider := (List.cons.inj hkey).1
  rw [← hkey] at hempty ⊢
  have hwritten : escape key.provider ≠ key.provider ↔
      ':' ∈ key.provider.toList ∨ '%' ∈ key.provider.toList := by
    rw [ne_eq, escape_eq_self_iff]
    grind
  have hread := parse_text_ofProviders providers hempty
  simp only [hwritten] at hread
  exact ⟨key, rfl, parserFor_parse_text providers hempty, hread⟩

theorem parse_join_ofProviders_mixed :
    (∃ key, key.segments = ["a:b", "images", "prod", "eu", "web"] ∧
      (ofProviders ["a:b", "aws"]).parse (join ["a:b", "images", "prod", "eu", "web"]) = .ok key) ∧
    ∃ key, key.segments = ["aws", "images", "prod", "eu", "web"] ∧
      (ofProviders ["a:b", "aws"]).parse (join ["aws", "images", "prod", "eu", "web"]) = .ok key := by
  obtain ⟨odd, hodd, -, hread⟩ := @parse_join_ofProviders "a:b" ["images", "prod", "eu", "web"]
    ["a:b", "aws"] (by decide) (by decide)
  obtain ⟨plain, hplain, -, hread'⟩ := @parse_join_ofProviders "aws" ["images", "prod", "eu", "web"]
    ["a:b", "aws"] (by decide) (by decide)
  rw [if_neg (by decide)] at hread hread'
  exact ⟨⟨odd, hodd, hread⟩, ⟨plain, hplain, hread'⟩⟩

/-- A parser for a provider whose name reads like an escaped text is asked about the keys of another
provider and refuses them, although the parser found for that provider reads them. -/
theorem parse_join_refused :
    ∃ key, key.segments = ["a:b", "images", "prod", "eu", "web"] ∧
      ((ofProviders ["a%3Ab"]).parserFor "a:b").parse (join ["a:b", "images", "prod", "eu", "web"]) =
        .ok key ∧
      (ofProviders ["a%3Ab"]).parse (join ["a:b", "images", "prod", "eu", "web"]) ≠ .ok key := by
  obtain ⟨key, hkey⟩ := @Key.exists_segments_eq ["a:b", "images", "prod", "eu", "web"] (by decide)
  have hprovider : key.provider = "a:b" := (List.cons.inj hkey).1
  have hempty : "" ∉ key.segments := by rw [hkey]; decide
  have hread := parserFor_parse_text ["a%3Ab"] hempty
  have hrefused := parse_text_ofProviders ["a%3Ab"] hempty
  rw [hprovider] at hread hrefused
  rw [if_pos (by decide)] at hrefused
  rw [← hkey]
  have hne : (ofProviders ["a%3Ab"]).parse key.text ≠ .ok key := by simp [hrefused]
  exact ⟨key, rfl, hread, hne⟩

end KeyParsers

end Inventory
