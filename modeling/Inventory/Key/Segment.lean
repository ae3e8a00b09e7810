import Inventory.Error

/-!
# Inventory.Key.Segment

Segments of a key and their escaped form.

A key is cut at its separators, so a separator inside a segment is written `%3A`, and a percent
sign, which starts an escape, is written `%25`. Reading accepts `%3a` as well and no other escape.
-/

namespace Inventory.Segment

/-- The character between two segments. -/
def separator : Char := ':'

/-- The escaped form of a character. -/
def escapeChar (c : Char) : List Char :=
  if c = ':' then ['%', '3', 'A'] else if c = '%' then ['%', '2', '5'] else [c]

/-- The escaped form of a segment. -/
def escape (s : String) : String := String.ofList (s.toList.flatMap escapeChar)

/-- The characters that an escaped segment stands for, unless it holds an escape of another kind. -/
def unescapeChars? : List Char → Option (List Char)
  | [] => some []
  | '%' :: '3' :: 'A' :: rest => (unescapeChars? rest).map (':' :: ·)
  | '%' :: '3' :: 'a' :: rest => (unescapeChars? rest).map (':' :: ·)
  | '%' :: '2' :: '5' :: rest => (unescapeChars? rest).map ('%' :: ·)
  | c :: rest => if c = '%' then none else (unescapeChars? rest).map (c :: ·)

/-- The segment that an escaped form stands for. -/
def unescape (s : String) : Except Error String :=
  match unescapeChars? s.toList with
  | some cs => .ok (String.ofList cs)
  | none => .error (.malformedKey s .invalidEscape)

/-! ## Cutting at separators -/

/-- The pieces of a text between its separators; there is always at least one. -/
def splitChars : List Char → List (List Char)
  | [] => [[]]
  | c :: rest =>
    if c = separator then [] :: splitChars rest
    else
      match splitChars rest with
      | [] => [[c]]
      | piece :: pieces => (c :: piece) :: pieces

/-- The escaped segments of a key. -/
def split (key : String) : List String := (splitChars key.toList).map String.ofList

/-- Joins segments into a key, escaping each of them. -/
def join (segments : List String) : String := ":".intercalate (segments.map escape)

/-! ## Laws -/

theorem splitChars_ne_nil (s : List Char) : splitChars s ≠ [] := by
  induction s with
  | nil => simp [splitChars]
  | cons c rest ih =>
    simp only [splitChars]
    split
    · simp
    · split <;> simp

/-- Reading an escaped segment gives the segment back. -/
theorem unescapeChars?_escape (s : List Char) :
    unescapeChars? (s.flatMap escapeChar) = some s := by
  induction s with
  | nil => rfl
  | cons c rest ih =>
    by_cases hc : c = ':'
    · simp [escapeChar, hc, unescapeChars?, ih]
    · by_cases hp : c = '%'
      · simp [escapeChar, hp, unescapeChars?, ih]
      · simp [escapeChar, hc, hp, unescapeChars?, ih]

end Inventory.Segment
