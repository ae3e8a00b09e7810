/-!
# Inventory.Bytes

Byte strings, their hexadecimal spelling, and text as UTF-8.
-/

namespace Inventory

/-- A byte string. -/
abbrev Bytes := List UInt8

namespace Bytes

/-- The UTF-8 encoding of a text. -/
def ofText (s : String) : Bytes := s.toUTF8.data.toList

/-- The text that a byte string encodes, if it is valid UTF-8. -/
def text? (b : Bytes) : Option String := String.fromUTF8? ⟨b.toArray⟩

/-! ## Hexadecimal -/

/-- The lower-case hexadecimal digit of a number below sixteen. -/
def hexDigit (n : Nat) : Char :=
  if n < 10 then Char.ofNat (n + '0'.toNat) else Char.ofNat (n - 10 + 'a'.toNat)

/-- The value of a hexadecimal digit of either case. -/
def hexValue? (c : Char) : Option Nat :=
  if '0' ≤ c ∧ c ≤ '9' then some (c.toNat - '0'.toNat)
  else if 'a' ≤ c ∧ c ≤ 'f' then some (c.toNat - 'a'.toNat + 10)
  else if 'A' ≤ c ∧ c ≤ 'F' then some (c.toNat - 'A'.toNat + 10)
  else none

/-- Two lower-case digits for each byte. -/
def hex (b : Bytes) : String :=
  String.ofList (b.flatMap fun byte => [hexDigit (byte.toNat / 16), hexDigit (byte.toNat % 16)])

/-- Reads a byte string written as pairs of hexadecimal digits. -/
def ofHex? (s : String) : Option Bytes := go s.toList
where
  /-- Reads the pairs one after the other. -/
  go : List Char → Option Bytes
    | [] => some []
    | [_] => none
    | high :: low :: rest => do
      let h ← hexValue? high
      let l ← hexValue? low
      let bytes ← go rest
      return UInt8.ofNat (16 * h + l) :: bytes

end Bytes

end Inventory
