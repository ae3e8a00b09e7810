import Inventory.Proofs.Key.Segments

/-!
# Inventory.Proofs.Key.Grammar

Which texts are keys.

A text is a key if it has enough pieces between its separators, none of them is empty, and every percent
sign in it starts an escape (`Key.WellFormed`). A key is changed by reading and writing it in one way only:
its lower-case escapes become upper-case ones (`Segment.canonical`), so two texts are the same key exactly
if they differ in the case of their escapes only (`KeyParser.parse_iff_wellFormed`).

Escapes have no separator in them, so both the condition and the change can be taken piece by piece.
-/

namespace Inventory

namespace Segment

/-! ## Escapes -/

/-- What follows the percent sign of an escape. -/
def codes : List (List Char) := [['3', 'A'], ['3', 'a'], ['2', '5']]

/-- Every percent sign starts an escape. -/
def Escaped (cs : List Char) : Prop := ∀ rest, '%' :: rest <:+ cs → ∃ code ∈ codes, code <+: rest

/-- A text with all its escapes in upper case. -/
def canonicalChars : List Char → List Char
  | '%' :: '3' :: 'a' :: rest => '%' :: '3' :: 'A' :: canonicalChars rest
  | c :: rest => c :: canonicalChars rest
  | [] => []

/-- A text with all its escapes in upper case. -/
def canonical (s : String) : String := String.ofList (canonicalChars s.toList)

theorem escaped_nil : Escaped [] := by
  intro rest h
  simp at h

theorem escaped_cons_iff {c : Char} {cs : List Char} :
    Escaped (c :: cs) ↔ (c = '%' → ∃ code ∈ codes, code <+: cs) ∧ Escaped cs := by
  simp only [Escaped, List.suffix_cons_iff, List.cons.injEq]
  constructor
  · exact fun h => ⟨fun hc => h cs (.inl ⟨hc.symm, rfl⟩), fun rest hrest => h rest (.inr hrest)⟩
  · rintro ⟨hhead, htail⟩ rest (⟨hc, rfl⟩ | hrest)
    · exact hhead hc.symm
    · exact htail rest hrest

theorem escaped_cons_of_ne {c : Char} (hc : c ≠ '%') {cs : List Char} : Escaped (c :: cs) ↔ Escaped cs := by
  rw [escaped_cons_iff, and_iff_right fun h => absurd h hc]

theorem escaped_percent_cons_iff {cs : List Char} :
    Escaped ('%' :: cs) ↔ (∃ code ∈ codes, code <+: cs) ∧ Escaped cs := by
  rw [escaped_cons_iff, forall_prop_of_true rfl]

/-- What can be unescaped is what has no other percent signs than those of escapes. The characters of an
escape are no percent signs themselves, so none is passed over with it. -/
theorem unescapeChars?_isSome_iff (cs : List Char) : (unescapeChars? cs).isSome ↔ Escaped cs := by
  fun_induction unescapeChars? cs with
  | case1 => exact iff_of_true rfl escaped_nil
  | case2 rest ih | case3 rest ih | case4 rest ih =>
      rw [Option.isSome_map, ih, escaped_percent_cons_iff, escaped_cons_of_ne (by decide),
        escaped_cons_of_ne (by decide), and_iff_right]
      exact ⟨_, by simp [codes], List.prefix_append [_, _] rest⟩
  | case5 rest hupper hlower hpercent =>
      rw [escaped_percent_cons_iff]
      refine iff_of_false Bool.false_ne_true ?_
      rintro ⟨⟨code, hcode, tail, rfl⟩, -⟩
      simp only [codes, List.mem_cons, List.not_mem_nil, or_false] at hcode
      rcases hcode with rfl | rfl | rfl
      · exact hupper tail rfl rfl
      · exact hlower tail rfl rfl
      · exact hpercent tail rfl rfl
  | case6 c rest _ _ _ hc ih => rw [Option.isSome_map, ih, escaped_cons_of_ne hc]

/-- Unescaping loses the case of the escapes and nothing else. -/
theorem flatMap_escapeChar_of_unescapeChars? {cs unescaped : List Char} (hplain : separator ∉ cs)
    (h : unescapeChars? cs = some unescaped) : unescaped.flatMap escapeChar = canonicalChars cs := by
  fun_induction unescapeChars? cs generalizing unescaped with
  | case1 =>
      obtain rfl := Option.some_inj.1 h
      rfl
  | case2 rest ih | case3 rest ih | case4 rest ih =>
      obtain ⟨tail, htail, rfl⟩ := Option.map_eq_some_iff.1 h
      simp only [separator, List.mem_cons, not_or] at hplain
      rw [List.flatMap_cons, ih hplain.2.2.2 htail]
      simp [escapeChar, canonicalChars]
  | case5 => contradiction
  | case6 c rest _ _ _ hc ih =>
      obtain ⟨tail, htail, rfl⟩ := Option.map_eq_some_iff.1 h
      rw [List.mem_cons, not_or] at hplain
      have hcolon : c ≠ ':' := Ne.symm hplain.1
      rw [List.flatMap_cons, ih hplain.2 htail]
      simp [escapeChar, canonicalChars, hc, hcolon]

theorem canonicalChars_eq_nil_iff {cs : List Char} : canonicalChars cs = [] ↔ cs = [] := by
  fun_cases canonicalChars cs <;> simp

/-! ## Piece by piece -/

section Pieces

variable {a b code : List Char}

/-- What has no separator in it stands before a separator if it stands there at all. -/
theorem prefix_append_separator_iff (h : separator ∉ code) : code <+: a ++ separator :: b ↔ code <+: a := by
  induction code generalizing a with
  | nil => exact iff_of_true List.nil_prefix List.nil_prefix
  | cons c code ih =>
      rw [List.mem_cons, not_or] at h
      cases a with
      | nil => simp [List.cons_prefix_cons, Ne.symm h.1]
      | cons d a => rw [List.cons_append, List.cons_prefix_cons, List.cons_prefix_cons, ih h.2]

theorem separator_not_mem_code (h : code ∈ codes) : separator ∉ code := by
  revert code
  decide

theorem escaped_append_separator : Escaped (a ++ separator :: b) ↔ Escaped a ∧ Escaped b := by
  induction a with
  | nil => rw [List.nil_append, escaped_cons_of_ne (by decide), and_iff_right escaped_nil]
  | cons c a ih =>
      rw [List.cons_append, escaped_cons_iff, escaped_cons_iff, ih, and_assoc]
      refine and_congr_left' (imp_congr_right fun _ => exists_congr fun code => and_congr_right fun h => ?_)
      exact prefix_append_separator_iff (separator_not_mem_code h)

theorem canonicalChars_cons {c : Char} {cs : List Char} (h : ¬ ['%', '3', 'a'] <+: c :: cs) :
    canonicalChars (c :: cs) = c :: canonicalChars cs := by
  rw [canonicalChars]
  rintro rest rfl rfl
  exact h (List.prefix_append ['%', '3', 'a'] rest)

theorem canonicalChars_append_separator :
    canonicalChars (a ++ separator :: b) = canonicalChars a ++ separator :: canonicalChars b := by
  fun_induction canonicalChars a with
  | case1 rest ih => exact congrArg ('%' :: '3' :: 'A' :: ·) ih
  | case2 c rest hlower ih =>
      have hother : ¬ ['%', '3', 'a'] <+: c :: (rest ++ separator :: b) := by
        rw [← List.cons_append, prefix_append_separator_iff (by decide)]
        rintro ⟨tail, htail⟩
        obtain ⟨rfl, rfl⟩ := List.cons.inj htail
        exact hlower tail rfl rfl
      rw [List.cons_append, canonicalChars_cons hother, ih, List.cons_append]
  | case3 => exact canonicalChars_cons (by simp [separator])

end Pieces

theorem escaped_intercalate_iff (pieces : List (List Char)) :
    Escaped ([separator].intercalate pieces) ↔ ∀ piece ∈ pieces, Escaped piece := by
  match pieces with
  | [] => simp [escaped_nil]
  | [piece] => simp
  | piece :: next :: rest =>
      rw [List.intercalate_cons_cons, List.append_assoc, List.singleton_append, escaped_append_separator,
        escaped_intercalate_iff (next :: rest)]
      exact List.forall_mem_cons.symm

theorem canonicalChars_intercalate (pieces : List (List Char)) :
    canonicalChars ([separator].intercalate pieces) =
      [separator].intercalate (pieces.map canonicalChars) := by
  match pieces with
  | [] => rfl
  | [piece] => simp
  | piece :: next :: rest =>
      rw [List.intercalate_cons_cons, List.append_assoc, List.singleton_append,
        canonicalChars_append_separator, canonicalChars_intercalate (next :: rest), List.map_cons,
        List.map_cons, List.map_cons, List.intercalate_cons_cons, List.append_assoc, List.singleton_append]

end Segment

/-! ## Keys -/

open Segment

/-- A text with enough pieces, none of them empty, and with no other percent signs than those of escapes. -/
structure Key.WellFormed (s : String) : Prop where
  enough : requiredSegments ≤ (s.toList.splitOn separator).length
  nonempty : [] ∉ s.toList.splitOn separator
  escaped : Escaped s.toList

variable {text s : String} {raw segments : List String} {pieces : List (List Char)} {key : Key} {p : KeyParser}

theorem Segment.unescape_eq_ok_iff {s segment : String} :
    unescape s = .ok segment ↔ unescapeChars? s.toList = some segment.toList := by
  rw [unescape]
  cases unescapeChars? s.toList with
  | none => exact iff_of_false (by simp) (by simp)
  | some cs => rw [Except.ok.injEq, Option.some_inj, ← String.toList_inj, String.toList_ofList]

theorem Segment.separator_not_mem_of_mem_splitChars {cs piece : List Char} (h : piece ∈ splitChars cs) :
    separator ∉ piece := by
  induction cs generalizing piece with
  | nil =>
      obtain rfl := List.mem_singleton.1 h
      exact List.not_mem_nil
  | cons c rest ih =>
      rw [splitChars] at h
      split at h
      · rcases List.mem_cons.1 h with rfl | hrest
        · exact List.not_mem_nil
        · exact ih hrest
      · next hc =>
          cases hpieces : splitChars rest with
          | nil => exact absurd hpieces (splitChars_ne_nil rest)
          | cons first pieces =>
              rw [hpieces] at h ih
              rcases List.mem_cons.1 h with rfl | hrest
              · rw [List.mem_cons, not_or]
                exact ⟨Ne.symm hc, ih List.mem_cons_self⟩
              · exact ih (List.mem_cons_of_mem _ hrest)

theorem Segment.separator_not_mem_of_mem_splitOn {cs piece : List Char} (h : piece ∈ cs.splitOn separator) :
    separator ∉ piece :=
  separator_not_mem_of_mem_splitChars (splitChars_eq_splitOn cs ▸ h)

theorem Segment.split_eq_map (s : String) : split s = (s.toList.splitOn separator).map String.ofList := by
  rw [split, splitChars_eq_splitOn]

namespace Key

/-- Pieces are unescaped if none is empty and every percent sign in them starts an escape. -/
theorem exists_unescapeAll_iff (text : String) (pieces : List (List Char)) :
    (∃ segments, unescapeAll text (pieces.map String.ofList) = .ok segments) ↔
      [] ∉ pieces ∧ ∀ piece ∈ pieces, Escaped piece := by
  induction pieces with
  | nil => exact iff_of_true ⟨[], rfl⟩ ⟨List.not_mem_nil, by simp⟩
  | cons piece pieces ih =>
      have hpiece : (∃ first, unescape (String.ofList piece) = .ok first) ↔ Escaped piece := by
        rw [← unescapeChars?_isSome_iff, Option.isSome_iff_exists]
        simp only [unescape_eq_ok_iff, String.toList_ofList]
        exact ⟨fun ⟨first, h⟩ => ⟨first.toList, h⟩,
          fun ⟨cs, h⟩ => ⟨String.ofList cs, h.trans (congrArg some String.toList_ofList.symm)⟩⟩
      have hempty : String.ofList piece ≠ "" ↔ ¬ [] = piece := by
        rw [ne_eq, ← String.toList_inj, String.toList_ofList]
        exact ne_comm
      rw [List.mem_cons, not_or, List.forall_mem_cons, and_and_and_comm, ← hempty, ← hpiece, ← ih]
      simp only [List.map_cons, unescapeAll_cons_eq_ok_iff]
      constructor
      · rintro ⟨_, hne, first, rest, hfirst, hrest, -⟩
        exact ⟨⟨hne, first, hfirst⟩, rest, hrest⟩
      · rintro ⟨⟨hne, first, hfirst⟩, rest, hrest⟩
        exact ⟨_, hne, first, rest, hfirst, hrest, rfl⟩

/-- Pieces that were unescaped are escaped again in upper case. -/
theorem map_escape_of_unescapeAll (hplain : ∀ piece ∈ pieces, separator ∉ piece)
    (h : unescapeAll text (pieces.map String.ofList) = .ok segments) :
    (segments.map escape).map String.toList = pieces.map canonicalChars := by
  induction pieces generalizing segments with
  | nil =>
      obtain rfl := Except.ok.inj h
      rfl
  | cons piece pieces ih =>
      rw [List.forall_mem_cons] at hplain
      obtain ⟨-, first, rest, hfirst, hrest, rfl⟩ := unescapeAll_cons_eq_ok_iff.1 h
      rw [unescape_eq_ok_iff, String.toList_ofList] at hfirst
      rw [List.map_cons, List.map_cons, List.map_cons, ih hplain.2 hrest, escape, String.toList_ofList,
        flatMap_escapeChar_of_unescapeChars? hplain.1 hfirst]

section Pieces

variable (h : unescapeAll text (split s) = .ok segments)
include h

theorem map_escape_of_unescapeAll_split :
    (segments.map escape).map String.toList = (s.toList.splitOn separator).map canonicalChars := by
  rw [split_eq_map] at h
  exact map_escape_of_unescapeAll (fun _ => separator_not_mem_of_mem_splitOn) h

/-- Joined again, the segments of a text are its canonical form. -/
theorem join_of_unescapeAll : join segments = canonical s := by
  rw [join, ← String.toList_inj, String.toList_intercalate, map_escape_of_unescapeAll_split h]
  calc [separator].intercalate ((s.toList.splitOn separator).map canonicalChars)
      = canonicalChars ([separator].intercalate (s.toList.splitOn separator)) :=
        (canonicalChars_intercalate _).symm
    _ = (canonical s).toList := by rw [List.intercalate_splitOn, canonical, String.toList_ofList]

theorem empty_not_mem_of_unescapeAll : "" ∉ segments := by
  intro hempty
  have hpiece : [] ∈ (s.toList.splitOn separator).map canonicalChars := by
    rw [← map_escape_of_unescapeAll_split h]
    exact List.mem_map.2 ⟨_, List.mem_map_of_mem hempty, rfl⟩
  obtain ⟨piece, hmem, hnil⟩ := List.mem_map.1 hpiece
  obtain rfl := canonicalChars_eq_nil_iff.1 hnil
  rw [split_eq_map] at h
  exact ((exists_unescapeAll_iff _ _).1 ⟨_, h⟩).1 hmem

end Pieces

theorem text_eq_canonical (h : unescapeAll text (split s) = .ok key.segments) : key.text = canonical s :=
  join_of_unescapeAll h

/-- A key is unescaped from a text exactly if the text is well formed. -/
theorem exists_unescapeAll_split_iff (s : String) :
    (∃ key : Key, unescapeAll s (split s) = .ok key.segments) ↔ WellFormed s := by
  have hescaped : Escaped s.toList ↔ ∀ piece ∈ s.toList.splitOn separator, Escaped piece := by
    rw [← escaped_intercalate_iff, List.intercalate_splitOn]
  have hunescape := exists_unescapeAll_iff s (s.toList.splitOn separator)
  rw [← split_eq_map, ← hescaped] at hunescape
  constructor
  · rintro ⟨key, hkey⟩
    obtain ⟨hnonempty, hesc⟩ := hunescape.1 ⟨_, hkey⟩
    have hlength := length_of_unescapeAll hkey
    rw [split_eq_map, List.length_map] at hlength
    exact ⟨by simp [← hlength, requiredSegments, segments], hnonempty, hesc⟩
  · rintro ⟨henough, hnonempty, hesc⟩
    obtain ⟨segments, hsegments⟩ := hunescape.2 ⟨hnonempty, hesc⟩
    have hlength := length_of_unescapeAll hsegments
    rw [split_eq_map, List.length_map] at hlength
    obtain ⟨key, rfl⟩ := exists_segments_eq (hlength ▸ henough)
    exact ⟨key, hsegments⟩

/-- The first piece of a text that is read is the provider. -/
theorem unescape_head_of_unescapeAll (h : unescapeAll text raw = .ok key.segments) :
    unescape (raw.headD "") = .ok key.provider := by
  cases raw with
  | nil => exact absurd (Except.ok.inj h).symm (List.cons_ne_nil _ _)
  | cons piece raw =>
      obtain ⟨-, first, rest, hfirst, -, heq⟩ := unescapeAll_cons_eq_ok_iff.1 h
      obtain ⟨rfl, -⟩ := List.cons.inj heq
      exact hfirst

end Key

namespace KeyParser

/-- What is read from a text is its pieces, each of them unescaped, if they name the parser's provider. -/
theorem parse_eq_ok_iff : p.parse s = .ok key ↔
    Key.unescapeAll s (split s) = .ok key.segments ∧ (p.provider ≠ "" → key.provider = p.provider) := by
  cases hunescape : Key.unescapeAll s (split s) with
  | error e =>
      refine iff_of_false ?_ fun h => by simp at h
      rw [parse, hunescape]
      dsimp only
      split <;> exact fun h => by contradiction
  | ok segments =>
      by_cases hfew : (split s).length < Key.requiredSegments
      · rw [parse]
        dsimp only
        rw [if_pos hfew]
        refine iff_of_false (fun h => by contradiction) fun h => ?_
        rw [← Key.length_of_unescapeAll hunescape, Except.ok.inj h.1] at hfew
        exact absurd hfew (Nat.not_lt.2 key.requiredSegments_le_length)
      · rw [← Key.length_of_unescapeAll hunescape, Nat.not_lt] at hfew
        obtain ⟨read, rfl⟩ := Key.exists_segments_eq hfew
        rw [parse_of_unescapeAll hunescape, Except.ok.injEq, Key.segments_inj]
        by_cases hother : p.provider ≠ "" ∧ read.provider ≠ p.provider
        · rw [if_pos hother]
          refine iff_of_false (fun h => by contradiction) ?_
          rintro ⟨rfl, hprovider⟩
          exact hother.2 (hprovider hother.1)
        · rw [if_neg hother, Except.ok.injEq]
          refine (and_iff_left_of_imp ?_).symm
          rintro rfl hp
          exact Decidable.byContradiction fun hne => hother ⟨hp, hne⟩

/-- A parser reads the well-formed texts of its provider. What it reads is written as the text with its
escapes in upper case and is read from there again, and two texts are read as one key, by whatever parsers,
exactly if they are the same in upper case. -/
theorem parse_iff_wellFormed (p : KeyParser) (s : String) :
    ((∃ key, p.parse s = .ok key) ↔
      Key.WellFormed s ∧ (p.provider ≠ "" → unescape ((split s).headD "") = .ok p.provider)) ∧
    ∀ key, p.parse s = .ok key →
      key.text = canonical s ∧ p.parse key.text = .ok key ∧
        ∀ (p' : KeyParser) (s' : String) (key' : Key), p'.parse s' = .ok key' →
          (key' = key ↔ canonical s' = canonical s) := by
  refine ⟨⟨?_, ?_⟩, fun key h => ?_⟩
  · rintro ⟨key, h⟩
    obtain ⟨hunescape, hprovider⟩ := parse_eq_ok_iff.1 h
    refine ⟨(Key.exists_unescapeAll_split_iff s).1 ⟨key, hunescape⟩, fun hp => ?_⟩
    rw [Key.unescape_head_of_unescapeAll hunescape, hprovider hp]
  · rintro ⟨hwell, hprovider⟩
    obtain ⟨key, hunescape⟩ := (Key.exists_unescapeAll_split_iff s).2 hwell
    refine ⟨key, parse_eq_ok_iff.2 ⟨hunescape, fun hp => ?_⟩⟩
    have hhead := Key.unescape_head_of_unescapeAll hunescape
    rw [hprovider hp] at hhead
    exact (Except.ok.inj hhead).symm
  · obtain ⟨hunescape, hprovider⟩ := parse_eq_ok_iff.1 h
    have hnonempty := Key.empty_not_mem_of_unescapeAll hunescape
    refine ⟨Key.text_eq_canonical hunescape, ?_, fun p' s' key' h' => ?_⟩
    · rw [parse_text, if_neg hnonempty, if_neg fun hother => hother.2 (hprovider hother.1)]
    · obtain ⟨hunescape', -⟩ := parse_eq_ok_iff.1 h'
      rw [← Key.text_eq_canonical hunescape, ← Key.text_eq_canonical hunescape']
      refine ⟨congrArg Key.text, fun htext => ?_⟩
      have hread := any_parse_text (Key.empty_not_mem_of_unescapeAll hunescape')
      rw [htext, any_parse_text hnonempty] at hread
      exact (Except.ok.inj hread).symm

theorem parse_iff_wellFormed_lowerCase :
    Key.WellFormed "aws:images:prod:us-east-1:a%3ab%25" ∧
      (Key.mk "aws" "images" "prod" "us-east-1" "a:b%" []).text = "aws:images:prod:us-east-1:a%3Ab%25" ∧
      ¬ ∃ key, any.parse "aws:images:prod:us-east-1:a%3" = .ok key := by
  obtain ⟨haccepted, hread⟩ := parse_iff_wellFormed ⟨"aws"⟩ "aws:images:prod:us-east-1:a%3ab%25"
  have hparse : (KeyParser.mk "aws").parse "aws:images:prod:us-east-1:a%3ab%25" =
      .ok ⟨"aws", "images", "prod", "us-east-1", "a:b%", []⟩ := by rfl
  refine ⟨(haccepted.1 ⟨_, hparse⟩).1, (hread _ hparse).1.trans (by decide), ?_⟩
  rw [(parse_iff_wellFormed _ _).1]
  rintro ⟨hwell, -⟩
  obtain ⟨code, hcode, hprefix⟩ := hwell.escaped ['3'] (by decide)
  revert code
  decide

end KeyParser

end Inventory
