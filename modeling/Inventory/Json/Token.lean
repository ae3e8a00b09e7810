import Inventory.Decimal.Numeral
import Inventory.Bytes

/-!
# Inventory.Json.Token

The tokens of a JSON text.

A string or a numeral can be well written and still denote nothing: an escaped surrogate that is
not half of a pair, or a magnitude beyond the finite numbers. Such a token carries `none`. It is an
error where its value is needed, and none where the value is skipped.
-/

namespace Inventory.Json

/-- A token of a JSON text. -/
inductive Token where
  /-- An opening brace. -/
  | openObject
  /-- A closing brace. -/
  | closeObject
  /-- An opening bracket. -/
  | openArray
  /-- A closing bracket. -/
  | closeArray
  /-- A colon. -/
  | colon
  /-- A comma. -/
  | comma
  /-- The word `null`. -/
  | null
  /-- One of the words `true` and `false`. -/
  | bool (b : Bool)
  /-- A string, with the text it denotes. -/
  | string (s : Option String)
  /-- A numeral, with the number it denotes. -/
  | number (n : Option Number)
deriving DecidableEq, Repr

namespace Token

/-! ## Writing -/

/-- The character of a short escape, for the characters that have one. -/
def shortEscape? (c : Char) : Option Char :=
  match c with
  | '"' => some '"'
  | '\\' => some '\\'
  | '\x08' => some 'b'
  | '\x0c' => some 'f'
  | '\n' => some 'n'
  | '\r' => some 'r'
  | '\t' => some 't'
  | _ => none

/-- A character inside a string: quotes, backslashes and control characters are escaped. -/
def escape (c : Char) : List Char :=
  match shortEscape? c with
  | some e => ['\\', e]
  | none =>
    if c.toNat < 32 then
      ['\\', 'u', '0', '0', Bytes.hexDigit (c.toNat / 16), Bytes.hexDigit (c.toNat % 16)]
    else [c]

/-- A string in quotes. -/
def quote (s : String) : List Char := '"' :: s.toList.flatMap escape ++ ['"']

/-- The shortest way to write a token; one that denotes nothing is written by an example of it. -/
def text : Token → List Char
  | openObject => ['{']
  | closeObject => ['}']
  | openArray => ['[']
  | closeArray => [']']
  | colon => [':']
  | comma => [',']
  | null => ['n', 'u', 'l', 'l']
  | bool true => ['t', 'r', 'u', 'e']
  | bool false => ['f', 'a', 'l', 's', 'e']
  | string (some s) => quote s
  | string none => ['"', '\\', 'u', 'd', '8', '0', '0', '"']
  | number (some n) => n.text
  | number none => ['1', 'e', '9', '9', '9']

/-! ## Reading strings -/

/-- A character of a string as written: itself, or a code unit by its number. -/
inductive Piece where
  /-- A character, raw or by a short escape. -/
  | char (c : Char)
  /-- A code unit of sixteen bits. -/
  | unit (n : Nat)

/-- The character that a short escape stands for. -/
def ofShortEscape? (e : Char) : Option Char :=
  match e with
  | '"' => some '"'
  | '\\' => some '\\'
  | '/' => some '/'
  | 'b' => some '\x08'
  | 'f' => some '\x0c'
  | 'n' => some '\n'
  | 'r' => some '\r'
  | 't' => some '\t'
  | _ => none

/-- The number written by four hexadecimal digits. -/
def codeUnit? (a b c d : Char) : Option Nat := do
  let a ← Bytes.hexValue? a
  let b ← Bytes.hexValue? b
  let c ← Bytes.hexValue? c
  let d ← Bytes.hexValue? d
  return ((a * 16 + b) * 16 + c) * 16 + d

/-- Reads the pieces of a string up to its closing quote, the last one first. -/
def pieces? (read : List Piece) : List Char → Option (List Piece × List Char)
  | [] => none
  | '"' :: rest => some (read, rest)
  | '\\' :: 'u' :: a :: b :: c :: d :: rest =>
    match codeUnit? a b c d with
    | some n => pieces? (.unit n :: read) rest
    | none => none
  | '\\' :: e :: rest =>
    match ofShortEscape? e with
    | some c => pieces? (.char c :: read) rest
    | none => none
  | c :: rest => if c.toNat < 32 ∨ c = '\\' then none else pieces? (.char c :: read) rest

/-- Whether a code unit is the first half of a pair. -/
def isHighSurrogate (n : Nat) : Bool := 0xD800 ≤ n && n < 0xDC00

/-- Whether a code unit is the second half of a pair. -/
def isLowSurrogate (n : Nat) : Bool := 0xDC00 ≤ n && n < 0xE000

/-- The characters that the pieces denote, taken from the last piece to the first; a half pair
denotes nothing. -/
def characters? (found : List Char) : List Piece → Option (List Char)
  | [] => some found
  | .char c :: rest => characters? (c :: found) rest
  | .unit n :: rest =>
    if isHighSurrogate n then none
    else if isLowSurrogate n then
      match rest with
      | .unit m :: rest =>
        if isHighSurrogate m then
          characters? (Char.ofNat (0x10000 + (m - 0xD800) * 0x400 + (n - 0xDC00)) :: found) rest
        else none
      | _ => none
    else characters? (Char.ofNat n :: found) rest

/-! ## Reading tokens -/

/-- Reads a given word. -/
def word? (token : Token) (input : List Char) : Option (Token × List Char) :=
  if token.text.isPrefixOf input then some (token, input.drop token.text.length) else none

/-- Reads a token from the front of the input, which must not start with a blank. -/
def scan? : List Char → Option (Token × List Char)
  | [] => none
  | '{' :: rest => some (openObject, rest)
  | '}' :: rest => some (closeObject, rest)
  | '[' :: rest => some (openArray, rest)
  | ']' :: rest => some (closeArray, rest)
  | ':' :: rest => some (colon, rest)
  | ',' :: rest => some (comma, rest)
  | '"' :: rest =>
    (pieces? [] rest).map fun (read, rest) =>
      (string ((characters? [] read).map String.ofList), rest)
  | c :: rest =>
    if c = 'n' then word? null (c :: rest)
    else if c = 't' then word? (bool true) (c :: rest)
    else if c = 'f' then word? (bool false) (c :: rest)
    else (Numeral.scan? (c :: rest)).map fun (numeral, rest) => (number numeral.number?, rest)

/-- Whether a character may stand between tokens. -/
def isBlank (c : Char) : Bool := c = ' ' || c = '\t' || c = '\n' || c = '\r'

/-! ## Every token takes input -/

theorem length_lt_of_digits? {input ds rest : List Char}
    (h : Numeral.digits? input = some (ds, rest)) : rest.length < input.length := by
  simp only [Numeral.digits?] at h
  split at h
  · cases h
  · next hne =>
    cases h
    have hsum : (input.takeWhile Char.isDigit ++ input.dropWhile Char.isDigit).length = _ :=
      congrArg List.length List.takeWhile_append_dropWhile
    rw [List.length_append] at hsum
    have : 0 < (input.takeWhile Char.isDigit).length := List.length_pos_iff.2 hne
    omega

theorem length_lt_of_whole? {input ds rest : List Char}
    (h : Numeral.whole? input = some (ds, rest)) : rest.length < input.length := by
  simp only [Numeral.whole?] at h
  split at h
  · cases h
  · exact length_lt_of_digits? h

theorem length_le_of_fraction? {input ds rest : List Char}
    (h : Numeral.fraction? input = some (ds, rest)) : rest.length ≤ input.length := by
  simp only [Numeral.fraction?] at h
  split at h
  · have := length_lt_of_digits? h
    simp only [List.length_cons]; omega
  · cases h; exact Nat.le_refl _

theorem length_le_of_exponent? {input rest : List Char} {e : Option (Bool × List Char)}
    (h : Numeral.exponent? input = some (e, rest)) : rest.length ≤ input.length := by
  simp only [Numeral.exponent?] at h
  split at h
  · cases h; exact Nat.le_refl _
  · split at h
    · split at h <;>
      · obtain ⟨⟨ds, r⟩, hd, heq⟩ := Option.map_eq_some_iff.1 h
        cases heq
        have := length_lt_of_digits? hd
        simp only [List.length_cons] at *; omega
    · cases h; exact Nat.le_refl _

theorem length_sign_le (input : List Char) : (Numeral.sign input).2.length ≤ input.length := by
  simp only [Numeral.sign]
  split <;> simp

theorem length_lt_of_numeral {input rest : List Char} {n : Numeral}
    (h : Numeral.scan? input = some (n, rest)) : rest.length < input.length := by
  simp only [Numeral.scan?, Option.bind_eq_bind, Option.bind_eq_some_iff] at h
  obtain ⟨⟨whole, r₁⟩, hw, ⟨fraction, r₂⟩, hf, ⟨exponent, r₃⟩, he, heq⟩ := h
  cases heq
  have h₀ := length_sign_le input
  have h₁ := length_lt_of_whole? hw
  have h₂ := length_le_of_fraction? hf
  have h₃ := length_le_of_exponent? he
  simp only at h₁ h₂ h₃ ⊢
  omega

theorem length_lt_of_pieces? {read found : List Piece} {input rest : List Char}
    (h : pieces? read input = some (found, rest)) : rest.length < input.length := by
  fun_induction pieces? read input <;> simp_all [List.length_cons] <;> omega

theorem length_lt_of_word? {token found : Token} {input rest : List Char}
    (hpos : token.text ≠ []) (h : word? token input = some (found, rest)) :
    rest.length < input.length := by
  simp only [word?] at h
  split at h
  · next hp =>
    cases h
    have hle := (List.isPrefixOf_iff_prefix.1 hp).length_le
    have := List.length_pos_iff.2 hpos
    simp only [List.length_drop]; omega
  · cases h

/-- Reading a token leaves a shorter input. -/
theorem length_lt_of_scan? {input rest : List Char} {token : Token}
    (h : scan? input = some (token, rest)) : rest.length < input.length := by
  unfold scan? at h
  split at h
  · cases h
  iterate 6 · cases h; simp
  · obtain ⟨⟨read, r⟩, hp, heq⟩ := Option.map_eq_some_iff.1 h
    cases heq
    have := length_lt_of_pieces? hp
    simp only [List.length_cons]; omega
  · split at h
    · exact length_lt_of_word? (by simp [text]) h
    · split at h
      · exact length_lt_of_word? (by simp [text]) h
      · split at h
        · exact length_lt_of_word? (by simp [text]) h
        · obtain ⟨⟨n, r⟩, hn, heq⟩ := Option.map_eq_some_iff.1 h
          cases heq
          exact length_lt_of_numeral hn

/-! ## Texts as tokens -/

/-- Reads the rest of a text into tokens, after those already read, which come last first. -/
def readAll? (read : List Token) : List Char → Option (List Token)
  | [] => some read.reverse
  | c :: rest =>
    if isBlank c then readAll? read rest
    else
      match _h : scan? (c :: rest) with
      | some (token, rest) => readAll? (token :: read) rest
      | none => none
termination_by input => input.length
decreasing_by
  · simp
  · exact length_lt_of_scan? _h

/-- The tokens of a text, if every part of it that is not blank belongs to one. -/
def ofText? (s : String) : Option (List Token) := readAll? [] s.toList

/-- A text without blanks that has the given tokens. -/
def textOf (tokens : List Token) : String := String.ofList (tokens.flatMap text)

end Token

end Inventory.Json
