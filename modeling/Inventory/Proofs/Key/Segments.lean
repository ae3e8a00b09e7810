import Inventory.Key.Parsers

/-!
# Inventory.Proofs.Key.Segments

Keys are read back from their texts.

No escaped segment has a separator in it, so cutting a text at its separators undoes the joining of the
segments (`Segment.split_join`), and unescaping undoes the escaping (`Segment.unescape_escape`). What is
read from the text of a key is that key, unless one of its segments is empty or the parser is for another
provider (`KeyParser.parse_text`).
-/

namespace Inventory

namespace Segment

/-! ## Cutting and joining -/

theorem splitChars_eq_splitOn (cs : List Char) : splitChars cs = cs.splitOn separator := by
  induction cs with
  | nil => rfl
  | cons c rest ih =>
      have hne := splitChars_ne_nil rest
      rw [splitChars, List.splitOn, List.splitOnP_cons_eq_if_modifyHead, ih]
      by_cases hc : c = separator
      · simp [hc, List.splitOn]
      · rw [if_neg hc, if_neg (by simpa using hc)]
        change _ = (rest.splitOn separator).modifyHead _
        rw [ih] at hne
        cases hpieces : rest.splitOn separator with
        | nil => exact absurd hpieces hne
        | cons piece pieces => rfl

theorem separator_not_mem_escapeChar (c : Char) : separator ∉ escapeChar c := by
  unfold escapeChar separator
  split
  · decide
  · split
    · decide
    · next hc _ => simpa using Ne.symm hc

theorem separator_not_mem_escape (s : String) : separator ∉ (escape s).toList := by
  rw [escape, String.toList_ofList, List.mem_flatMap]
  rintro ⟨c, -, hc⟩
  exact separator_not_mem_escapeChar c hc

/-- The pieces of a text that was joined are the segments, each of them escaped. -/
theorem split_join {segments : List String} (h : segments ≠ []) :
    split (join segments) = segments.map escape := by
  have hplain : ∀ l ∈ (segments.map escape).map String.toList, separator ∉ l := by
    simp only [List.mem_map]
    rintro _ ⟨_, ⟨s, -, rfl⟩, rfl⟩
    exact separator_not_mem_escape s
  rw [split, join, String.toList_intercalate, splitChars_eq_splitOn]
  change ([separator].intercalate _ |>.splitOn separator).map String.ofList = _
  rw [List.splitOn_intercalate separator hplain (by simpa using h), List.map_map]
  exact (List.map_congr_left fun s _ => String.ofList_toList).trans (List.map_id _)

theorem unescape_escape (s : String) : unescape (escape s) = .ok s := by
  rw [unescape, escape, String.toList_ofList, unescapeChars?_escape]
  exact congrArg Except.ok String.ofList_toList

theorem escape_eq_empty_iff {s : String} : escape s = "" ↔ s = "" := by
  constructor
  · intro h
    have hback := unescape_escape s
    rw [h] at hback
    exact (Except.ok.inj hback).symm
  · rintro rfl
    rfl

end Segment

/-! ## Reading keys -/

open Segment

variable {text s : String} {raw segments : List String} {k key : Key} {p : KeyParser}

namespace Key

theorem segments_inj {k k' : Key} : k.segments = k'.segments ↔ k = k' := by
  cases k
  cases k'
  simp [segments]

theorem requiredSegments_le_length (k : Key) : requiredSegments ≤ k.segments.length := by
  simp [segments, requiredSegments]

/-- The key of a list that has a segment for every part of a key. -/
theorem exists_segments_eq (h : requiredSegments ≤ segments.length) :
    ∃ key : Key, key.segments = segments := by
  match segments, h with
  | provider :: type :: account :: region :: name :: extra, _ =>
      exact ⟨⟨provider, type, account, region, name, extra⟩, rfl⟩

theorem unescapeAll_cons_eq_ok_iff {piece : String} :
    unescapeAll text (piece :: raw) = .ok segments ↔
      piece ≠ "" ∧ ∃ first rest, unescape piece = .ok first ∧ unescapeAll text raw = .ok rest ∧
        segments = first :: rest := by
  rw [unescapeAll, ne_eq, ← String.isEmpty_iff]
  split
  · next hempty => exact iff_of_false (fun h => by contradiction) fun h => h.1 hempty
  · next hempty =>
      rw [and_iff_right hempty]
      cases unescape piece with
      | error e => exact iff_of_false (fun h => by contradiction) fun h => by simp at h
      | ok first =>
          cases unescapeAll text raw with
          | error e => exact iff_of_false (fun h => by contradiction) fun h => by simp at h
          | ok rest =>
              constructor
              · exact fun h => ⟨first, rest, rfl, rfl, (Except.ok.inj h).symm⟩
              · rintro ⟨_, _, ⟨⟩, ⟨⟩, rfl⟩
                rfl

theorem length_of_unescapeAll (h : unescapeAll text raw = .ok segments) : segments.length = raw.length := by
  induction raw generalizing segments with
  | nil =>
      obtain rfl := Except.ok.inj h
      rfl
  | cons piece raw ih =>
      obtain ⟨-, first, rest, -, hrest, rfl⟩ := unescapeAll_cons_eq_ok_iff.1 h
      rw [List.length_cons, List.length_cons, ih hrest]

end Key

/-- Escaped segments are read back, unless one of them is empty. -/
theorem Key.unescapeAll_map_escape (text : String) (segments : List String) :
    unescapeAll text (segments.map escape) =
      if "" ∈ segments then .error (.malformedKey text .emptySegment) else .ok segments := by
  induction segments with
  | nil => rfl
  | cons s segments ih =>
      rw [List.map_cons, unescapeAll]
      by_cases hs : s = ""
      · subst hs
        rw [if_pos (by rfl), if_pos List.mem_cons_self]
        rfl
      · have hempty : ¬ (escape s).isEmpty := by
          rw [String.isEmpty_iff]
          exact fun h => hs (escape_eq_empty_iff.1 h)
        rw [if_neg hempty, unescape_escape, ih]
        by_cases hrest : "" ∈ segments
        · rw [if_pos hrest, if_pos (List.mem_cons_of_mem _ hrest)]
          rfl
        · rw [if_neg hrest, if_neg (by simp [hrest, Ne.symm hs])]
          rfl

/-- What a parser makes of the text whose segments are those of a key. -/
theorem KeyParser.parse_of_unescapeAll (h : Key.unescapeAll s (split s) = .ok k.segments) : p.parse s =
    if p.provider ≠ "" ∧ k.provider ≠ p.provider then
      .error (.malformedKey s (.wrongProvider k.provider p.provider))
    else .ok k := by
  have hlength : ¬ (split s).length < Key.requiredSegments := by
    rw [← Key.length_of_unescapeAll h, Nat.not_lt]
    exact k.requiredSegments_le_length
  rw [parse]
  dsimp only
  rw [if_neg hlength, h]
  change (do
    if p.provider ≠ "" ∧ k.provider ≠ p.provider then
      throw (.malformedKey s (.wrongProvider k.provider p.provider))
    return k : Except Error Key) = _
  split <;> rfl

theorem Key.split_text (k : Key) : split k.text = k.segments.map escape :=
  split_join (List.cons_ne_nil _ _)

theorem Key.text_ne_empty (k : Key) : k.text ≠ "" := by
  intro h
  have hlength := congrArg List.length k.split_text
  rw [h, List.length_map] at hlength
  simp [split, splitChars, segments] at hlength

/-- What a parser makes of the text of a key. -/
theorem KeyParser.parse_text (p : KeyParser) (k : Key) : p.parse k.text =
    if "" ∈ k.segments then .error (.malformedKey k.text .emptySegment)
    else if p.provider ≠ "" ∧ k.provider ≠ p.provider then
      .error (.malformedKey k.text (.wrongProvider k.provider p.provider))
    else .ok k := by
  have hunescape := Key.unescapeAll_map_escape k.text k.segments
  rw [← Key.split_text] at hunescape
  by_cases hempty : "" ∈ k.segments
  · have hlength : ¬ (split k.text).length < Key.requiredSegments := by
      rw [Key.split_text, List.length_map, Nat.not_lt]
      exact k.requiredSegments_le_length
    rw [if_pos hempty] at hunescape ⊢
    rw [parse]
    dsimp only
    rw [if_neg hlength, hunescape]
    rfl
  · rw [if_neg hempty] at hunescape ⊢
    exact parse_of_unescapeAll hunescape

theorem KeyParser.any_parse_text (h : "" ∉ k.segments) : any.parse k.text = .ok k := by
  rw [parse_text, if_neg h, if_neg fun hc => hc.1 rfl]

namespace KeyParsers

variable {ps : KeyParsers}

/-- The text of a key is read by the parser for its provider as it is written. -/
theorem parse_text_eq (ps : KeyParsers) (h : k.provider ≠ "") :
    ps.parse k.text = (ps.parserFor (escape k.provider)).parse k.text := by
  have hprovider : Key.providerOf? k.text = some (escape k.provider) := by
    rw [Key.providerOf?, Key.split_text]
    refine if_neg ?_
    rw [String.isEmpty_iff]
    exact fun hempty => h (escape_eq_empty_iff.1 hempty)
  rw [parse, hprovider]

/-- Parsers that make of the text of a key that key, if they read it at all. -/
def ReadBack (ps : KeyParsers) : Prop := ∀ k key : Key, ps.parse k.text = .ok key → key = k

/-- Parsers of the common layout only. -/
def AreCommon (ps : KeyParsers) : Prop := ∀ provider, ∃ p : KeyParser, ps.parserFor provider = p

theorem parserFor_empty (provider : String) : parserFor {} provider = KeyParser.any :=
  Std.ExtTreeMap.getD_empty

theorem areCommon_empty : AreCommon {} := fun provider => ⟨.any, parserFor_empty provider⟩

/-- Whatever is read by the common layout from the text of a key is that key. -/
theorem AreCommon.readBack (h : ps.AreCommon) : ps.ReadBack := by
  intro k key hread
  by_cases hprovider : k.provider = ""
  · have hnone : Key.providerOf? k.text = none := by
      rw [Key.providerOf?, Key.split_text]
      exact if_pos (by rw [hprovider]; rfl)
    rw [parse, hnone] at hread
    contradiction
  · obtain ⟨p, hp⟩ := h (escape k.provider)
    rw [parse_text_eq ps hprovider, hp] at hread
    change p.parse k.text = .ok key at hread
    rw [KeyParser.parse_text] at hread
    split at hread
    · contradiction
    · split at hread
      · contradiction
      · exact (Except.ok.inj hread).symm

/-- Where no provider has a parser of its own, a key without empty segments is read back. -/
theorem parse_text_of_nonempty (h : "" ∉ k.segments) : parse {} k.text = .ok k := by
  have hprovider : k.provider ≠ "" := fun hempty => h (hempty ▸ List.mem_cons_self)
  rw [parse_text_eq {} hprovider, parserFor_empty]
  exact KeyParser.any_parse_text h

end KeyParsers

/-! ## Lists of segments -/

/-- A parser reads the text of a key without empty segments if it is for the provider of the key or for
all of them. -/
theorem KeyParser.exists_parse_text_iff (p : KeyParser) (h : "" ∉ k.segments) :
    (∃ key, p.parse k.text = .ok key) ↔ (p.provider ≠ "" → k.provider = p.provider) := by
  rw [KeyParser.parse_text, if_neg h]
  by_cases hother : p.provider ≠ "" ∧ k.provider ≠ p.provider
  · rw [if_pos hother]
    refine iff_of_false ?_ fun hsame => hother.2 (hsame hother.1)
    rintro ⟨_, hread⟩
    contradiction
  · rw [if_neg hother]
    refine iff_of_true ⟨k, rfl⟩ fun hprovider => ?_
    exact Decidable.byContradiction fun hne => hother ⟨hprovider, hne⟩

/-- Segments are written without loss. Where there are enough of them and none is empty, the parser for
all providers reads them back in order, whatever characters they have; the parser for one provider reads
them exactly if it is the first segment; and no other such list has the same text. -/
theorem KeyParser.join_readBack {segments : List String} (hlength : Key.requiredSegments ≤ segments.length)
    (hempty : "" ∉ segments) :
    (∃ key, KeyParser.any.parse (join segments) = .ok key ∧ key.segments = segments ∧
      key.text = join segments) ∧
    (∀ p : KeyParser, p.provider ≠ "" →
      ((∃ key, p.parse (join segments) = .ok key) ↔ segments.head? = some p.provider)) ∧
    (∀ others : List String, Key.requiredSegments ≤ others.length → "" ∉ others →
      join others = join segments → others = segments) ∧
    ∀ key : Key, "" ∉ key.segments → KeyParser.any.parse key.text = .ok key := by
  obtain ⟨key, rfl⟩ := Key.exists_segments_eq hlength
  refine ⟨⟨key, any_parse_text hempty, rfl, rfl⟩, fun p hp => ?_, fun others hothers hne htext => ?_,
    fun _ => any_parse_text⟩
  · calc (∃ read, p.parse key.text = .ok read) ↔ (p.provider ≠ "" → key.provider = p.provider) :=
          p.exists_parse_text_iff hempty
      _ ↔ key.provider = p.provider := forall_prop_of_true hp
      _ ↔ key.segments.head? = some p.provider := Option.some_inj.symm
  · obtain ⟨other, rfl⟩ := Key.exists_segments_eq hothers
    have hread : KeyParser.any.parse key.text = .ok other := by
      rw [← show other.text = key.text from htext, any_parse_text hne]
    rw [any_parse_text hempty] at hread
    exact congrArg Key.segments (Except.ok.inj hread).symm

theorem KeyParser.join_readBack_escapeLike :
    (∃ key, KeyParser.any.parse (join ["aws", "images", "%3A", "us:east", "%25"]) = .ok key ∧
      key.segments = ["aws", "images", "%3A", "us:east", "%25"]) ∧
    ∃ key, (KeyParser.mk "aws").parse (join ["aws", "images", "%3A", "us:east", "%25"]) = .ok key := by
  have hread := @KeyParser.join_readBack ["aws", "images", "%3A", "us:east", "%25"] (by decide)
    (by decide)
  obtain ⟨⟨key, hkey, hsegments, -⟩, hprovider, -, -⟩ := hread
  exact ⟨⟨key, hkey, hsegments⟩, (hprovider ⟨"aws"⟩ (by decide)).2 rfl⟩

end Inventory
