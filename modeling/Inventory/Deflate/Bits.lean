import Inventory.Bytes

/-!
# Inventory.Deflate.Bits

Byte strings as strings of bits, the lowest bit of each byte first, and numbers read from them.

Every string of bits that is read here ends where a byte string ends, so what is left of the byte
that is being read is known from the number of bits that are left.
-/

namespace Inventory.Deflate

/-- A string of bits. -/
abbrev Bits := List Bool

namespace Bits

/-- The bits of a byte, the lowest first. -/
def ofByte (b : UInt8) : Bits := (List.range 8).map b.toNat.testBit

/-- The bits of a byte string. -/
def ofBytes (b : Bytes) : Bits := b.flatMap ofByte

/-- The number that bits denote, the lowest first. -/
def toNat (bits : Bits) : Nat := bits.foldr (fun bit n => 2 * n + bit.toNat) 0

/-- The bytes that bits form; a last incomplete byte is dropped. -/
def toBytes : Bits → Bytes
  | a :: b :: c :: d :: e :: f :: g :: h :: rest =>
    UInt8.ofNat (toNat [a, b, c, d, e, f, g, h]) :: toBytes rest
  | _ => []

/-- Reads a number of the given width. -/
def number? (width : Nat) (bits : Bits) : Option (Nat × Bits) :=
  if (bits.take width).length = width then some (toNat (bits.take width), bits.drop width) else none

/-- Skips the rest of the byte that is being read. -/
def align (bits : Bits) : Bits := bits.drop (bits.length % 8)

theorem length_le_of_number? {width n : Nat} {bits rest : Bits}
    (h : number? width bits = some (n, rest)) : rest.length ≤ bits.length := by
  simp only [number?] at h
  split at h
  · cases h; simp
  · cases h

end Bits

end Inventory.Deflate
