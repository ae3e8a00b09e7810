import Inventory.Bytes

/-!
# Inventory.Digest.Crc32

The cyclic redundancy check that closes a gzip member.
-/

namespace Inventory.Crc32

/-- Shifts the register by one bit. -/
def shift (register : UInt32) : UInt32 :=
  if register &&& 1 = 1 then (register >>> 1) ^^^ 0xEDB88320 else register >>> 1

/-- Adds a byte to the register. -/
def step (register : UInt32) (b : UInt8) : UInt32 :=
  shift (shift (shift (shift (shift (shift (shift (shift (register ^^^ b.toUInt32))))))))

/-- The checksum of a byte string. -/
def checksum (b : Bytes) : UInt32 := b.foldl step 0xFFFFFFFF ^^^ 0xFFFFFFFF

end Inventory.Crc32
