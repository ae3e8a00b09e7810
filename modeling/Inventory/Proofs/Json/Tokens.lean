import Inventory.Json.Document
import Mathlib.Data.List.TakeWhile

/-!
# Inventory.Proofs.Json.Tokens

What is written in tokens is read as these tokens.

A token is read from the front of a text whatever stands behind it; only a numeral must not be followed
by something that could be a part of it (`scan?_append`). So two texts that are read as tokens are read
one after the other as the tokens of both (`Reads.append`), and what a token is written as is read as that
token (`Reads.token_cons`), integers in the range of those that are kept (`Reads.integer`).
-/

namespace Inventory

/-! ## Numerals -/

namespace Numeral

/-- Whether a text cannot be taken for a part of a numeral in front of it. -/
def Bounds (rest : List Char) : Prop :=
  ∀ c ∈ rest.head?, c.isDigit = false ∧ c ≠ '.' ∧ c ≠ 'e' ∧ c ≠ 'E'

variable {input rest r : List Char}

theorem takeWhile_isDigit_of_bounds (h : Bounds rest) : rest.takeWhile Char.isDigit = [] := by
  cases rest with
  | nil => rfl
  | cons c rest => simp [(h c rfl).1]

theorem dropWhile_isDigit_of_bounds (h : Bounds rest) : rest.dropWhile Char.isDigit = rest := by
  cases rest with
  | nil => rfl
  | cons c rest => simp [(h c rfl).1]

theorem digits?_append {ds : List Char} (h : digits? input = some (ds, r)) (hrest : Bounds rest) :
    digits? (input ++ rest) = some (ds, r ++ rest) := by
  have htake : (input ++ rest).takeWhile Char.isDigit = input.takeWhile Char.isDigit := by
    rw [List.takeWhile_append, takeWhile_isDigit_of_bounds hrest, List.append_nil]
    split
    · next hall =>
        exact ((List.takeWhile_prefix _).eq_of_length hall).symm
    · rfl
  have hdrop : (input ++ rest).dropWhile Char.isDigit = input.dropWhile Char.isDigit ++ rest := by
    rw [List.dropWhile_append, dropWhile_isDigit_of_bounds hrest]
    split
    · next hempty => rw [List.isEmpty_iff.1 hempty, List.nil_append]
    · rfl
  unfold digits? at h ⊢
  rw [htake, hdrop]
  split at h
  · contradiction
  · simp_all

theorem whole?_append {ds : List Char} (h : whole? input = some (ds, r)) (hrest : Bounds rest) :
    whole? (input ++ rest) = some (ds, r ++ rest) := by
  unfold whole? at h ⊢
  split at h
  · contradiction
  · next found hnot =>
      rw [digits?_append h hrest]
      split
      · next hzero =>
          obtain ⟨rfl, -⟩ := Prod.mk.inj (Option.some.inj hzero)
          exact absurd h (hnot _ _ _)
      · rfl

theorem fraction?_append {ds : List Char} (h : fraction? input = some (ds, r)) (hrest : Bounds rest) :
    fraction? (input ++ rest) = some (ds, r ++ rest) := by
  unfold fraction? at h
  split at h
  · rw [List.cons_append, fraction?]
    exact digits?_append h hrest
  · next hpoint =>
      obtain ⟨rfl, rfl⟩ := Prod.mk.inj (Option.some.inj h)
      unfold fraction?
      split
      · next rest' heq =>
          cases input with
          | nil => exact absurd rfl (hrest '.' (by rw [← List.nil_append rest, heq]; rfl)).2.1
          | cons c input => exact absurd (congrArg (· :: input) (List.cons.inj heq).1) (hpoint input)
      · rfl

theorem exponent?_append {e : Option (Bool × List Char)} (h : exponent? input = some (e, r))
    (hrest : Bounds rest) : exponent? (input ++ rest) = some (e, r ++ rest) := by
  cases input with
  | nil =>
      obtain ⟨rfl, rfl⟩ := Prod.mk.inj (Option.some.inj h)
      cases rest with
      | nil => rfl
      | cons c rest =>
          have hc := hrest c rfl
          simp [exponent?, hc.2.2]
  | cons c input =>
      unfold exponent? at h
      rw [List.cons_append]
      unfold exponent?
      dsimp only at h ⊢
      split at h
      · next hmark =>
          rw [if_pos hmark]
          split at h
          iterate 2
            · obtain ⟨⟨ds, r'⟩, hds, heq⟩ := Option.map_eq_some_iff.1 h
              obtain ⟨rfl, rfl⟩ := Prod.mk.inj heq
              simp only [List.cons_append, digits?_append hds hrest, Option.map_some]
          · next hminus hplus =>
              obtain ⟨⟨ds, r'⟩, hds, heq⟩ := Option.map_eq_some_iff.1 h
              obtain ⟨rfl, rfl⟩ := Prod.mk.inj heq
              cases input with
              | nil => simp [digits?] at hds
              | cons c' input =>
                  have happend := digits?_append hds hrest
                  rw [List.cons_append] at happend ⊢
                  split
                  · next heq => exact (hminus input (congrArg (· :: input) (List.cons.inj heq).1)).elim
                  · next heq => exact (hplus input (congrArg (· :: input) (List.cons.inj heq).1)).elim
                  · rw [happend, Option.map_some]
      · next hmark =>
          rw [if_neg hmark]
          obtain ⟨rfl, rfl⟩ := Prod.mk.inj (Option.some.inj h)
          rfl

/-- A numeral is read from the front of a text, whatever follows that is no part of it. -/
theorem scan?_append {n : Numeral} (h : scan? input = some (n, r)) (hrest : Bounds rest) :
    scan? (input ++ rest) = some (n, r ++ rest) := by
  cases input with
  | nil => simp [scan?, sign, whole?, digits?] at h
  | cons c input =>
      have hsign : sign (c :: input ++ rest) = ((sign (c :: input)).1, (sign (c :: input)).2 ++ rest) := by
        by_cases hc : c = '-'
        · subst hc
          rfl
        · simp [sign, hc]
      simp only [scan?, Option.bind_eq_bind, Option.bind_eq_some_iff] at h ⊢
      obtain ⟨⟨w, r₁⟩, hwhole, ⟨f, r₂⟩, hfraction, ⟨x, r₃⟩, hexponent, heq⟩ := h
      obtain ⟨rfl, rfl⟩ := Prod.mk.inj (Option.some.inj heq)
      rw [hsign]
      exact ⟨_, whole?_append hwhole hrest, _, fraction?_append hfraction hrest, _,
        exponent?_append hexponent hrest, rfl⟩

/-! ### Integers -/

/-- Only zero has a leading zero. -/
theorem toDigits_ne_zero_cons (n : Nat) (c : Char) (ds : List Char) :
    Nat.toDigits 10 n ≠ '0' :: c :: ds := by
  have hhead : ∀ n, 0 < n → (Nat.toDigits 10 n).head? ≠ some '0' := by
    intro n
    induction n using Nat.strong_induction_on with
    | _ n ih =>
        intro hpos
        rw [Nat.toDigits_eq_if (by decide)]
        split
        · next hlt =>
            have hdigit : ∀ k : Fin 10, 0 < k.val → k.val.digitChar ≠ '0' := by decide
            simpa using hdigit ⟨n, hlt⟩ hpos
        · next hle =>
            have hfirst := ih (n / 10) (by omega) (by omega)
            cases h : Nat.toDigits 10 (n / 10) with
            | nil => exact absurd h Nat.toDigits_ne_nil
            | cons c ds => simpa [h] using hfirst
  intro h
  cases n with
  | zero => simp at h
  | succ n => exact hhead (n + 1) (Nat.succ_pos n) (by rw [h]; rfl)

theorem whole?_toDigits (n : Nat) : whole? (Nat.toDigits 10 n) = some (Nat.toDigits 10 n, []) := by
  have hdigits : digits? (Nat.toDigits 10 n) = some (Nat.toDigits 10 n, []) := by
    have hall : ∀ c ∈ Nat.toDigits 10 n, c.isDigit = true :=
      fun c hc => Nat.isDigit_of_mem_toDigits (by decide) (by decide) hc
    have htake : (Nat.toDigits 10 n).takeWhile Char.isDigit = Nat.toDigits 10 n :=
      List.takeWhile_eq_self_iff.2 hall
    have hdrop : (Nat.toDigits 10 n).dropWhile Char.isDigit = [] := List.dropWhile_eq_nil_iff.2 hall
    unfold digits?
    rw [htake, hdrop]
    cases h : Nat.toDigits 10 n with
    | nil => exact absurd h Nat.toDigits_ne_nil
    | cons c ds => rfl
  unfold whole?
  rw [hdigits]
  split
  · next h => exact absurd (Prod.mk.inj (Option.some.inj h)).1 (toDigits_ne_zero_cons n _ _)
  · rfl

/-- A number written as a numeral is read as that number, if it is an integer that is kept as one. -/
theorem scan?_text {n : Int} (h : Number.InRange n) :
    ∃ numeral, scan? (Number.int n).text = some (numeral, []) ∧ numeral.number? = some (.int n) := by
  cases n with
  | ofNat n =>
      have hsign : sign (Nat.toDigits 10 n) = (false, Nat.toDigits 10 n) := by
        unfold sign
        split
        · next rest heq =>
            have hdigit : '-'.isDigit = true :=
              Nat.isDigit_of_mem_toDigits (b := 10) (n := n) (by decide) (by decide) (by rw [heq]; simp)
            contradiction
        · rfl
      refine ⟨⟨false, Nat.toDigits 10 n, [], none⟩, ?_, ?_⟩
      · simp [Number.text, scan?, hsign, whole?_toDigits, fraction?, exponent?]
      · have hinteger : integer ⟨false, Nat.toDigits 10 n, [], none⟩ = n := by
          simp [integer, Nat.ofDigitChars_toDigits]
        rw [number?, hinteger]
        exact if_pos ⟨rfl, h, by simp⟩
  | negSucc n =>
      refine ⟨⟨true, Nat.toDigits 10 (n + 1), [], none⟩, ?_, ?_⟩
      · simp [Number.text, scan?, sign, whole?_toDigits, fraction?, exponent?]
      · have hinteger : integer ⟨true, Nat.toDigits 10 (n + 1), [], none⟩ = Int.negSucc n := by
          simp [integer, Nat.ofDigitChars_toDigits, Int.negSucc_eq]
        rw [number?, hinteger]
        exact if_pos ⟨rfl, h, by simp⟩

end Numeral

namespace Json.Token

open Numeral (Bounds)

variable {input rest r : List Char}

/-! ## Strings -/

/-- What a written character is read as: a code unit, if it has been written as one. -/
def pieceOf (c : Char) : Piece :=
  if (shortEscape? c).isNone ∧ c.toNat < 32 then .unit c.toNat else .char c

theorem codeUnit?_hexDigit {n : Nat} (h : n < 32) :
    codeUnit? '0' '0' (Bytes.hexDigit (n / 16)) (Bytes.hexDigit (n % 16)) = some n := by
  have hall : ∀ k : Fin 32, codeUnit? '0' '0' (Bytes.hexDigit (k.val / 16))
      (Bytes.hexDigit (k.val % 16)) = some k.val := by decide
  exact hall ⟨n, h⟩

theorem pieces?_escape (c : Char) (read : List Piece) (rest : List Char) :
    pieces? read (escape c ++ rest) = pieces? (pieceOf c :: read) rest := by
  cases hshort : shortEscape? c with
  | some e =>
      have hpiece : pieceOf c = .char c := by simp [pieceOf, hshort]
      have hescape : escape c = ['\\', e] := by simp [escape, hshort]
      rw [hpiece, hescape]
      unfold shortEscape? at hshort
      split at hshort <;> first | contradiction | (cases hshort; simp [pieces?, ofShortEscape?])
  | none =>
      by_cases hcontrol : c.toNat < 32
      · simp [pieceOf, escape, hshort, hcontrol, pieces?, codeUnit?_hexDigit hcontrol]
      · have hquote : c ≠ '"' := by
          rintro rfl
          simp [shortEscape?] at hshort
        have hbackslash : c ≠ '\\' := by
          rintro rfl
          simp [shortEscape?] at hshort
        simp [pieceOf, escape, hshort, hcontrol, pieces?, hbackslash]

/-- The characters of a string are read up to the closing quote. -/
theorem pieces?_flatMap_escape (l : List Char) (read : List Piece) (rest : List Char) :
    pieces? read (l.flatMap escape ++ '"' :: rest) = some ((l.map pieceOf).reverse ++ read, rest) := by
  induction l generalizing read with
  | nil => simp [pieces?]
  | cons c l ih =>
      rw [List.flatMap_cons, List.append_assoc, pieces?_escape, ih]
      simp

theorem characters?_pieceOf (c : Char) (found : List Char) (l : List Piece) :
    characters? found (pieceOf c :: l) = characters? (c :: found) l := by
  unfold pieceOf
  split
  · next h =>
      have hhigh : isHighSurrogate c.toNat = false := by simp [isHighSurrogate]; omega
      have hlow : isLowSurrogate c.toNat = false := by simp [isLowSurrogate]; omega
      rw [characters?.eq_def]
      simp [hhigh, hlow]
  · rfl

theorem characters?_map_pieceOf (l found : List Char) :
    characters? found (l.map pieceOf) = some (l.reverse ++ found) := by
  induction l generalizing found with
  | nil => rfl
  | cons c l ih => rw [List.map_cons, characters?_pieceOf, ih]; simp

/-- A string in quotes is read as that string. -/
theorem scan?_quote (s : String) (rest : List Char) :
    scan? (quote s ++ rest) = some (.string (some s), rest) := by
  have hquote : quote s ++ rest = '"' :: (s.toList.flatMap escape ++ '"' :: rest) := by simp [quote]
  have hcharacters : characters? [] (s.toList.map pieceOf).reverse = some s.toList := by
    rw [← List.map_reverse, characters?_map_pieceOf, List.reverse_reverse, List.append_nil]
  simp [hquote, scan?, pieces?_flatMap_escape, hcharacters]

theorem pieces?_append {read found : List Piece} (h : pieces? read input = some (found, r))
    (rest : List Char) : pieces? read (input ++ rest) = some (found, r ++ rest) := by
  fun_induction pieces? read input with
  | case1 => contradiction
  | case2 read input =>
      obtain ⟨rfl, rfl⟩ := Prod.mk.inj (Option.some.inj h)
      rfl
  | case3 read a b c d input n hunit ih => simp only [List.cons_append, pieces?, hunit, ih h]
  | case4 => contradiction
  | case5 read e input hnot c hescape ih =>
      have hne : e ≠ 'u' := by
        rintro rfl
        simp [ofShortEscape?] at hescape
      simp [pieces?, hne, hescape, ih h]
  | case6 => contradiction
  | case7 => contradiction
  | case8 read c input hquote hunit hescape hplain ih =>
      rw [not_or] at hplain
      simp [pieces?, hplain, ih h]

/-! ## Tokens in front of a text -/

theorem word?_append {token found : Token} (h : word? token input = some (found, r)) (rest : List Char) :
    word? token (input ++ rest) = some (found, r ++ rest) := by
  unfold word? at h ⊢
  split at h
  · next hprefix =>
      obtain ⟨rfl, rfl⟩ := Prod.mk.inj (Option.some.inj h)
      have hle := (List.isPrefixOf_iff_prefix.1 hprefix).length_le
      have hlonger : token.text.isPrefixOf (input ++ rest) = true :=
        List.isPrefixOf_iff_prefix.2 ((List.isPrefixOf_iff_prefix.1 hprefix).trans (List.prefix_append _ _))
      rw [if_pos hlonger, List.drop_append_of_le_length hle]
  · contradiction

/-- A token is read from the front of a text, whatever follows that is no part of a numeral. -/
theorem scan?_append {token : Token} (h : scan? input = some (token, r)) (hrest : Bounds rest) :
    scan? (input ++ rest) = some (token, r ++ rest) := by
  unfold scan? at h
  split at h
  · contradiction
  iterate 6
    · obtain ⟨rfl, rfl⟩ := Prod.mk.inj (Option.some.inj h)
      rfl
  · obtain ⟨⟨read, r'⟩, hpieces, heq⟩ := Option.map_eq_some_iff.1 h
    obtain ⟨rfl, rfl⟩ := Prod.mk.inj heq
    simp [scan?, pieces?_append hpieces]
  · next c input h₁ h₂ h₃ h₄ h₅ h₆ h₇ =>
      rw [List.cons_append, scan?.eq_9 c (input ++ rest) h₁ h₂ h₃ h₄ h₅ h₆ h₇]
      split at h
      · next hc => rw [if_pos hc]; exact word?_append h rest
      · next hnull =>
          rw [if_neg hnull]
          split at h
          · next hc => rw [if_pos hc]; exact word?_append h rest
          · next htrue =>
              rw [if_neg htrue]
              split at h
              · next hc => rw [if_pos hc]; exact word?_append h rest
              · next hfalse =>
                  rw [if_neg hfalse]
                  obtain ⟨⟨numeral, r'⟩, hnumeral, heq⟩ := Option.map_eq_some_iff.1 h
                  obtain ⟨rfl, rfl⟩ := Prod.mk.inj heq
                  have happend := Numeral.scan?_append hnumeral hrest
                  rw [List.cons_append] at happend
                  rw [happend, Option.map_some]

/-- Whether a token is read back from what it is written as, whatever follows. -/
def Stands : Token → Prop
  | .number _ | .string none => False
  | _ => True

theorem scan?_text_append {token : Token} (h : token.Stands) (rest : List Char) :
    scan? (token.text ++ rest) = some (token, rest) := by
  cases token with
  | number n => contradiction
  | string s =>
      cases s with
      | none => contradiction
      | some s => exact scan?_quote s rest
  | bool b => cases b <;> simp [text, scan?, word?]
  | null => simp [text, scan?, word?]
  | _ => rfl

/-- What is read as a numeral is a token, as no other token begins like one. -/
theorem scan?_of_numeral {n : Numeral} (h : Numeral.scan? input = some (n, r)) :
    scan? input = some (.number n.number?, r) := by
  cases input with
  | nil => simp [Numeral.scan?, Numeral.sign, Numeral.whole?, Numeral.digits?] at h
  | cons c input =>
      have hfirst : c = '-' ∨ c.isDigit = true := by
        by_contra hnot
        rw [not_or, Bool.not_eq_true] at hnot
        simp [Numeral.scan?, Numeral.sign, Numeral.whole?, Numeral.digits?, hnot] at h
      have hother : ∀ d : Char, d ≠ '-' ∧ d.isDigit = false → c ≠ d := by
        rintro d ⟨hminus, hdigit⟩ rfl
        simp [hminus, hdigit] at hfirst
      rw [scan?.eq_9 c input (hother _ (by decide)) (hother _ (by decide)) (hother _ (by decide))
        (hother _ (by decide)) (hother _ (by decide)) (hother _ (by decide)) (hother _ (by decide)),
        if_neg (hother _ (by decide)), if_neg (hother _ (by decide)), if_neg (hother _ (by decide)), h]
      rfl

/-! ## Whole texts -/

/-- No token begins with a blank. -/
theorem isBlank_of_scan? {c : Char} {p : Token × List Char} (h : scan? (c :: rest) = some p) :
    isBlank c = false := by
  by_contra hblank
  simp only [Bool.not_eq_false, isBlank, Bool.or_eq_true, decide_eq_true_eq] at hblank
  rcases hblank with ((rfl | rfl) | rfl) | rfl <;>
    simp [scan?, Numeral.scan?, Numeral.sign, Numeral.whole?, Numeral.digits?] at h

theorem readAll?_of_scan? {read : List Token} {token : Token} (h : scan? input = some (token, r)) :
    readAll? read input = readAll? (token :: read) r := by
  cases input with
  | nil => contradiction
  | cons c input =>
      rw [readAll?, isBlank_of_scan? h, if_neg Bool.false_ne_true]
      split
      · next token' r' h' =>
          obtain ⟨rfl, rfl⟩ := Prod.mk.inj (Option.some.inj (h'.symm.trans h))
          rfl
      · next h' => exact absurd (h'.symm.trans h) (by simp)

/-- What has been read before is not looked at. -/
theorem readAll?_append_read (later read : List Token) (input : List Char) :
    readAll? (later ++ read) input = (readAll? later input).map (read.reverse ++ ·) := by
  fun_induction readAll? later input with
  | case1 later => rw [readAll?, List.reverse_append, Option.map_some]
  | case2 later c input hblank ih => rw [readAll?, if_pos hblank, ih]
  | case3 later c input hblank token r hscan ih => rw [readAll?_of_scan? hscan, ← List.cons_append, ih]
  | case4 later c input hblank hscan =>
      rw [readAll?, if_neg hblank, hscan]
      rfl

theorem readAll?_append {read tokens : List Token} (h : readAll? read input = some tokens)
    (hrest : Bounds rest) : readAll? read (input ++ rest) = readAll? tokens.reverse rest := by
  fun_induction readAll? read input with
  | case1 read =>
      obtain rfl := Option.some.inj h
      rw [List.reverse_reverse, List.nil_append]
  | case2 read c input hblank ih =>
      rw [List.cons_append, readAll?, if_pos hblank]
      exact ih h
  | case3 read c input hblank token r hscan ih =>
      rw [readAll?_of_scan? (scan?_append hscan hrest)]
      exact ih h
  | case4 => contradiction

/-- Whether a text is read as some tokens. -/
def Reads (input : List Char) (tokens : List Token) : Prop := readAll? [] input = some tokens

variable {tokens tokens' : List Token}

theorem reads_nil : Reads [] [] := by rw [Reads, readAll?, List.reverse_nil]

theorem Reads.append (h : Reads input tokens) (hrest : Bounds rest) (h' : Reads rest tokens') :
    Reads (input ++ rest) (tokens ++ tokens') := by
  rw [Reads, readAll?_append h hrest, ← List.nil_append tokens.reverse, readAll?_append_read, h',
    Option.map_some, List.reverse_reverse]

theorem Reads.token_cons (token : Token) (htoken : token.Stands) (h : Reads rest tokens) :
    Reads (token.text ++ rest) (token :: tokens) := by
  have hrest : readAll? ([] ++ [token]) rest = some (token :: tokens) := by
    rw [readAll?_append_read, h]
    rfl
  exact (readAll?_of_scan? (scan?_text_append htoken rest)).trans hrest

theorem reads_text (token : Token) (htoken : token.Stands) : Reads token.text [token] := by
  have h := Reads.token_cons token htoken reads_nil
  rwa [List.append_nil] at h

theorem reads_integer {n : Int} (h : Number.InRange n) :
    Reads (Number.int n).text [.number (some (.int n))] := by
  obtain ⟨numeral, hnumeral, hnumber⟩ := Numeral.scan?_text h
  rw [Reads, readAll?_of_scan? (scan?_of_numeral hnumeral), hnumber, readAll?, List.reverse_singleton]

end Json.Token

end Inventory
