import Inventory.Deflate.Inflate
import Inventory.Digest.Crc32

/-!
# Inventory.Gzip

Byte strings wrapped as gzip members.

A member is a header with optional fields, DEFLATE data, and the checksum and the length of what the
data holds. Reading looks at the first member only. Writing stores the bytes as they are, which any
reader accepts.
-/

namespace Inventory.Gzip

open Deflate (Bits inflate? storedBlocks)

/-- The two bytes with which every member starts. -/
def magic : Bytes := [0x1f, 0x8b]

/-- Whether a byte string starts like a member. -/
def looksLike (b : Bytes) : Bool := magic.isPrefixOf b

/-- The longest a text in the header may be. -/
def maxFieldLength : Nat := 0xFFFF

/-- The number that bytes denote, the lowest byte first. -/
def numberOf (b : Bytes) : Nat := (Bits.ofBytes b).toNat

/-- A number as four bytes, the lowest first. -/
def wordBytes (n : Nat) : Bytes :=
  [UInt8.ofNat n, UInt8.ofNat (n / 0x100), UInt8.ofNat (n / 0x10000), UInt8.ofNat (n / 0x1000000)]

/-! ## Reading -/

/-- Takes a number of bytes off the front. -/
def take? (count : Nat) (b : Bytes) : Option (Bytes × Bytes) :=
  if (b.take count).length = count then some (b.take count, b.drop count) else none

/-- Skips the extra field. -/
def skipExtra? (b : Bytes) : Option Bytes := do
  let (length, b) ← take? 2 b
  let (_, b) ← take? (numberOf length) b
  return b

/-- Skips a text that a zero byte ends. -/
def skipText? (b : Bytes) : Option Bytes :=
  match b.dropWhile (· ≠ 0) with
  | _ :: rest => if (b.takeWhile (· ≠ 0)).length ≤ maxFieldLength then some rest else none
  | [] => none

/-- Skips a part that is there if the flags say so. -/
def skipIf? (present : Bool) (skip? : Bytes → Option Bytes) (b : Bytes) : Option Bytes :=
  if present then skip? b else some b

/-- Skips the checksum of the header, which must be right. -/
def skipHeaderChecksum? (header b : Bytes) : Option Bytes := do
  let (sum, rest) ← take? 2 b
  let read := header.take (header.length - b.length)
  if numberOf sum = (Crc32.checksum read).toNat % 0x10000 then some rest else none

/-- Skips the header of a member. -/
def skipHeader? (b : Bytes) : Option Bytes := do
  let (fixed, rest) ← take? 10 b
  match fixed with
  | [a, c, method, flags, _, _, _, _, _, _] =>
    if [a, c] ≠ magic ∨ method ≠ 8 ∨ flags &&& 0xE0 ≠ 0 then none
    else
      skipIf? (flags &&& 4 ≠ 0) skipExtra? rest
        >>= skipIf? (flags &&& 8 ≠ 0) skipText?
        >>= skipIf? (flags &&& 16 ≠ 0) skipText?
        >>= skipIf? (flags &&& 2 ≠ 0) (skipHeaderChecksum? b)
  | _ => none

/-- The content of the first member of a byte string. -/
def decode? (b : Bytes) : Option Bytes := do
  let data ← skipHeader? b
  let (content, rest) ← inflate? data
  let (sum, rest) ← take? 4 rest
  let (length, _) ← take? 4 rest
  if numberOf sum = (Crc32.checksum content).toNat ∧
      numberOf length = content.length % 0x100000000 then
    some content
  else none

/-! ## Writing -/

/-- The header of a member without optional fields. -/
def header : Bytes := magic ++ [8, 0, 0, 0, 0, 0, 0, 255]

/-- A member that holds the given bytes. -/
def encode (content : Bytes) : Bytes :=
  header ++ storedBlocks (batches 0xFFFF content) ++
    wordBytes (Crc32.checksum content).toNat ++ wordBytes content.length

end Inventory.Gzip
