import Inventory.Error
import Inventory.Glob.Match
import Inventory.Proofs.Glob.Wildcards

/-!
# Inventory.Proofs.Glob.Places

What the matcher finds of a glob of literal characters and wildcards.

Places of a text are told by what is left of the text behind them (`Places.Leave`). In these terms every
part of a pattern is a step of its own, whatever led to the places it starts from, and a whole pattern
matches the texts that its glob takes byte by byte (`exists_compile`).
-/

namespace Inventory.Glob

variable {text : Bytes} {places : Places} {left : Bytes → Prop}

/-! ## What is left of a text -/

namespace Places

/-- The places of a text are those with certain texts behind them. -/
structure Leave (text : Bytes) (places : Places) (left : Bytes → Prop) : Prop where
  length : places.length = text.length + 1
  left_iff : ∀ rest, left rest ↔ ∃ front, text = front ++ rest ∧ places[front.length]? = some true

theorem leave_start (text : Bytes) : Leave text (start text) (· = text) where
  length := by simp [start]
  left_iff rest := by
    constructor
    · rintro rfl
      exact ⟨[], rfl, rfl⟩
    · rintro ⟨_ | ⟨b, front⟩, htext, hplace⟩
      · exact htext.symm
      · rw [start, List.map_const', List.length_cons, List.getElem?_cons_succ] at hplace
        exact absurd (List.eq_of_mem_replicate (List.mem_of_getElem? hplace)) (by decide)

theorem Leave.step (h : Leave text places left) (accepts : UInt8 → Bool) :
    Leave text (places.step text accepts) fun rest => ∃ b, accepts b ∧ left (b :: rest) where
  length := by simp [Places.step, h.length]
  left_iff rest := by
    simp only [h.left_iff]
    constructor
    · rintro ⟨b, hb, front, rfl, hplace⟩
      refine ⟨front ++ [b], by simp, ?_⟩
      rw [Places.step, List.length_append, List.length_singleton, List.getElem?_cons_succ]
      exact List.getElem?_zipWith_eq_some.2 ⟨b, true, by simp, hplace, hb⟩
    · rintro ⟨front, rfl, hplace⟩
      rcases List.eq_nil_or_concat' front with rfl | ⟨front, b, rfl⟩
      · exact absurd (Option.some.inj hplace) (by decide)
      · rw [Places.step, List.length_append, List.length_singleton, List.getElem?_cons_succ] at hplace
        obtain ⟨b', here, hb', hhere, htrue⟩ := List.getElem?_zipWith_eq_some.1 hplace
        obtain rfl : b = b' := by simpa using hb'
        obtain ⟨rfl, haccepts⟩ := Bool.and_eq_true_iff.1 htrue
        exact ⟨b, haccepts, front, by simp, hhere⟩

theorem length_go (before : Bool) (places : Places) : (onwards.go before places).length = places.length := by
  induction places generalizing before with
  | nil => rfl
  | cons here places ih => rw [onwards.go, List.length_cons, ih, List.length_cons]

theorem getElem?_go {before : Bool} {i : Nat} (h : i < places.length) :
    (onwards.go before places)[i]? = some true ↔ before ∨ ∃ j ≤ i, places[j]? = some true := by
  induction places generalizing before i with
  | nil => contradiction
  | cons here places ih =>
      cases i with
      | zero => simp [onwards.go]
      | succ i =>
          have hlater : (∃ j ≤ i + 1, (here :: places)[j]? = some true) ↔
              here = true ∨ ∃ j ≤ i, places[j]? = some true := by
            constructor
            · rintro ⟨_ | j, hj, hplace⟩
              · exact .inl (Option.some.inj hplace)
              · exact .inr ⟨j, Nat.le_of_succ_le_succ hj, hplace⟩
            · rintro (rfl | ⟨j, hj, hplace⟩)
              · exact ⟨0, Nat.zero_le _, rfl⟩
              · exact ⟨j + 1, Nat.succ_le_succ hj, hplace⟩
          rw [onwards.go, List.getElem?_cons_succ, ih (by simpa using h), hlater, Bool.or_eq_true, or_assoc]

theorem Leave.onwards (h : Leave text places left) :
    Leave text places.onwards fun rest => ∃ run, left (run ++ rest) where
  length := (length_go false places).trans h.length
  left_iff rest := by
    simp only [h.left_iff]
    constructor
    · rintro ⟨run, front, rfl, hplace⟩
      refine ⟨front ++ run, by simp, (getElem?_go ?_).2 (.inr ⟨front.length, by simp, hplace⟩)⟩
      rw [h.length, List.length_append, List.length_append, List.length_append]
      omega
    · rintro ⟨front, rfl, hplace⟩
      have hinside : front.length < places.length := by
        rw [h.length, List.length_append]
        omega
      obtain ⟨j, hj, hplace⟩ := ((getElem?_go hinside).1 hplace).resolve_left nofun
      refine ⟨front.drop j, front.take j, ?_, ?_⟩
      · rw [← List.append_assoc, List.take_append_drop]
      · rwa [List.length_take_of_le hj]

theorem Leave.hasEnd (h : Leave text places left) : places.hasEnd ↔ left [] := by
  rw [h.left_iff, Places.hasEnd, List.getLastD_eq_getLast?, List.getLast?_eq_getElem?, h.length,
    Nat.add_sub_cancel]
  constructor
  · intro hplace
    refine ⟨text, (List.append_nil text).symm, ?_⟩
    cases hlast : places[text.length]? with
    | none => rw [hlast] at hplace; contradiction
    | some here => rw [hlast] at hplace; exact congrArg some hplace
  · rintro ⟨front, rfl, hplace⟩
    rw [List.append_nil, hplace]
    rfl

end Places

/-! ## What a pattern takes -/

open Places

theorem ofText_toString (c : Char) : Bytes.ofText c.toString = String.utf8EncodeChar c := by
  rw [ofText_eq_flatMap, Char.toString, String.toList_singleton, List.flatMap_singleton]

/-- A character takes its bytes. -/
theorem Places.Leave.literal (h : Leave text places left) (bytes : Bytes) :
    Leave text (bytes.foldl (fun places b => places.step text (· == b)) places)
      fun rest => left (bytes ++ rest) := by
  induction bytes generalizing places left with
  | nil => exact h
  | cons b bytes ih =>
      have hstep := ih (h.step (· == b))
      simpa using hstep

/-- The part that a character of a glob stands for. -/
def partOf : Char → Part
  | '?' => .anyByte
  | '*' => .anyBytes
  | c => .literal c

theorem partOf_literal {c : Char} (hone : c ≠ '?') (hstar : c ≠ '*') : partOf c = .literal c := by
  unfold partOf
  split <;> first | contradiction | rfl

theorem partOf_ne_leading (c : Char) : partOf c ≠ .leading := by
  unfold partOf
  split <;> exact nofun

/-- The parts for the characters of a glob take what the glob takes, wherever they start. -/
theorem Places.Leave.reachAll_iff (h : Leave text places left) (glob : List Char) :
    (reachAll text places (glob.map partOf)).hasEnd ↔
      ∃ rest, left rest ∧ Takes String.utf8EncodeChar glob rest := by
  induction glob generalizing places left with
  | nil =>
      rw [List.map_nil, reachAll, h.hasEnd]
      constructor
      · exact fun hend => ⟨[], hend, rfl⟩
      · rintro ⟨rest, hrest, rfl⟩
        exact hrest
  | cons c glob ih =>
      rw [List.map_cons, reachAll]
      by_cases hone : c = '?'
      · subst hone
        rw [partOf, Part.reach, ih (h.step _)]
        constructor
        · rintro ⟨rest, ⟨b, -, hleft⟩, htakes⟩
          exact ⟨b :: rest, hleft, b, rest, rfl, htakes⟩
        · rintro ⟨_, hleft, b, rest, rfl, htakes⟩
          exact ⟨rest, ⟨b, rfl, hleft⟩, htakes⟩
      · by_cases hstar : c = '*'
        · subst hstar
          rw [partOf, Part.reach, ih h.onwards]
          constructor
          · rintro ⟨rest, ⟨run, hleft⟩, htakes⟩
            exact ⟨run ++ rest, hleft, run, rest, rfl, htakes⟩
          · rintro ⟨_, hleft, run, rest, rfl, htakes⟩
            exact ⟨rest, ⟨run, hleft⟩, htakes⟩
        · rw [partOf_literal hone hstar, Part.reach, ofText_toString, ih (h.literal _)]
          simp only [takes_literal hone hstar]
          constructor
          · rintro ⟨rest, hleft, htakes⟩
            exact ⟨_, hleft, rest, rfl, htakes⟩
          · rintro ⟨_, hleft, rest, rfl, htakes⟩
            exact ⟨rest, hleft, htakes⟩

/-- The parts for the characters of a glob match the texts that the glob takes byte by byte. -/
theorem isMatch_partOf_iff (glob text : String) :
    isMatch (glob.toList.map partOf) text ↔ MatchesBytes glob text := by
  have hreach := (leave_start (Bytes.ofText text)).reachAll_iff glob.toList
  simp only [exists_eq_left] at hreach
  unfold isMatch
  split
  · next hleading =>
      obtain ⟨c, -, hc⟩ := List.mem_map.1 (hleading ▸ List.mem_singleton_self Part.leading)
      exact absurd hc (partOf_ne_leading c)
  · exact hreach

/-! ## How a plain glob is read -/

/-- Every character of a plain glob is read as the part it stands for. -/
theorem readFrom_of_plain {glob : List Char} (hchar : ∀ c ∈ glob, c ∉ ['[', ']', '{', '}', '\\'])
    (hstars : ¬ ['*', '*'] <:+: glob) (d : Draft) (hgroups : d.groups = []) (previous : Option Char) :
    readFrom d previous glob = .ok (d.current.reverse ++ glob.map partOf) := by
  induction glob generalizing d previous with
  | nil =>
      rw [readFrom, Draft.finish, hgroups, List.map_nil, List.append_nil]
      rfl
  | cons c glob ih =>
      -- What is left of the glob goes on after the part.
      have hrest : ∀ p previous, readFrom (d.push p) previous glob =
          .ok (d.current.reverse ++ p :: glob.map partOf) := fun p previous => by
        rw [ih (fun c hc => hchar c (List.mem_cons_of_mem _ hc))
          (fun h => hstars (List.infix_cons h)) (d.push p) hgroups previous]
        simp [Draft.push]
      have hspecial := hchar c List.mem_cons_self
      rw [List.map_cons]
      by_cases hone : c = '?'
      · subst hone
        rw [readFrom, hrest]
        rfl
      · by_cases hstar : c = '*'
        · subst hstar
          have hnext : ∀ rest, glob ≠ '*' :: rest := fun rest h => hstars ⟨[], rest, by rw [h]; rfl⟩
          rw [readFrom, hrest]
          · rfl
          · exact fun rest => hnext ('/' :: rest)
          · exact hnext
        · rw [partOf_literal hone hstar]
          by_cases hcomma : c = ','
          · subst hcomma
            rw [readFrom, Draft.comma, hgroups]
            exact hrest _ _
          · rw [readFrom, hrest]
            -- No other way of reading begins with this character.
            all_goals grind

/-- A plain glob can be read, and its pattern matches the texts that the glob takes byte by byte. -/
theorem exists_compile {glob : String} (h : IsPlain glob) :
    ∃ pattern, compile glob = .ok pattern ∧ ∀ text, isMatch pattern text ↔ MatchesBytes glob text := by
  have hread := readFrom_of_plain h.char h.star {} rfl none
  exact ⟨_, by rw [compile, parse, hread]; rfl, isMatch_partOf_iff glob⟩

end Inventory.Glob
