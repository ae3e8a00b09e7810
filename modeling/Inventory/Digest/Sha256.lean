import Inventory.Bytes
import Inventory.Collections

/-!
# Inventory.Digest.Sha256

The SHA-256 digest of a byte string. It tells whether a blob has changed since it was last written,
and to which shard a key belongs.
-/

namespace Inventory.Sha256

/-- The chaining value of eight words. -/
structure Chain where
  a : UInt32
  b : UInt32
  c : UInt32
  d : UInt32
  e : UInt32
  f : UInt32
  g : UInt32
  h : UInt32

/-- The chaining value before the first block. -/
def Chain.initial : Chain :=
  ⟨0x6a09e667, 0xbb67ae85, 0x3c6ef372, 0xa54ff53a, 0x510e527f, 0x9b05688c, 0x1f83d9ab, 0x5be0cd19⟩

/-- The constants of the sixty-four rounds. -/
def roundConstants : List UInt32 :=
  [0x428a2f98, 0x71374491, 0xb5c0fbcf, 0xe9b5dba5, 0x3956c25b, 0x59f111f1, 0x923f82a4, 0xab1c5ed5,
   0xd807aa98, 0x12835b01, 0x243185be, 0x550c7dc3, 0x72be5d74, 0x80deb1fe, 0x9bdc06a7, 0xc19bf174,
   0xe49b69c1, 0xefbe4786, 0x0fc19dc6, 0x240ca1cc, 0x2de92c6f, 0x4a7484aa, 0x5cb0a9dc, 0x76f988da,
   0x983e5152, 0xa831c66d, 0xb00327c8, 0xbf597fc7, 0xc6e00bf3, 0xd5a79147, 0x06ca6351, 0x14292967,
   0x27b70a85, 0x2e1b2138, 0x4d2c6dfc, 0x53380d13, 0x650a7354, 0x766a0abb, 0x81c2c92e, 0x92722c85,
   0xa2bfe8a1, 0xa81a664b, 0xc24b8b70, 0xc76c51a3, 0xd192e819, 0xd6990624, 0xf40e3585, 0x106aa070,
   0x19a4c116, 0x1e376c08, 0x2748774c, 0x34b0bcb5, 0x391c0cb3, 0x4ed8aa4a, 0x5b9cca4f, 0x682e6ff3,
   0x748f82ee, 0x78a5636f, 0x84c87814, 0x8cc70208, 0x90befffa, 0xa4506ceb, 0xbef9a3f7, 0xc67178f2]

/-- Rotation to the right. -/
def rotate (x n : UInt32) : UInt32 := (x >>> n) ||| (x <<< (32 - n))

/-- The word that four bytes form, the first one highest. -/
def word (b : Bytes) : UInt32 := b.foldl (fun w byte => (w <<< 8) ||| byte.toUInt32) 0

/-- The bytes of a word, the highest first. -/
def wordBytes (w : UInt32) : Bytes :=
  [(w >>> 24).toUInt8, (w >>> 16).toUInt8, (w >>> 8).toUInt8, w.toUInt8]

/-- The message with a one bit, zeros up to eight bytes short of a block, and its length in bits. -/
def pad (message : Bytes) : Bytes :=
  let zeros : Bytes := List.replicate ((119 - message.length % 64) % 64) 0
  let bits := UInt64.ofNat (8 * message.length)
  let length : Bytes :=
    [(bits >>> 56).toUInt8, (bits >>> 48).toUInt8, (bits >>> 40).toUInt8, (bits >>> 32).toUInt8,
     (bits >>> 24).toUInt8, (bits >>> 16).toUInt8, (bits >>> 8).toUInt8, bits.toUInt8]
  message ++ 0x80 :: (zeros ++ length)

/-- The next word of a schedule, which holds the latest word first. -/
def nextWord (schedule : List UInt32) : UInt32 :=
  let w := fun i => schedule.getD (i - 1) 0
  let x := w 15
  let y := w 2
  w 16 + (rotate x 7 ^^^ rotate x 18 ^^^ (x >>> 3)) +
    w 7 + (rotate y 17 ^^^ rotate y 19 ^^^ (y >>> 10))

/-- Extends a schedule by `n` words. -/
def extend : Nat → List UInt32 → List UInt32
  | 0, schedule => schedule
  | n + 1, schedule => extend n (nextWord schedule :: schedule)

/-- One round on the chaining value. -/
def round (s : Chain) (constant w : UInt32) : Chain :=
  let mix := rotate s.e 6 ^^^ rotate s.e 11 ^^^ rotate s.e 25
  let choice := (s.e &&& s.f) ^^^ (~~~s.e &&& s.g)
  let t := s.h + mix + choice + constant + w
  let spread := rotate s.a 2 ^^^ rotate s.a 13 ^^^ rotate s.a 22
  let majority := (s.a &&& s.b) ^^^ (s.a &&& s.c) ^^^ (s.b &&& s.c)
  ⟨t + spread + majority, s.a, s.b, s.c, s.d + t, s.e, s.f, s.g⟩

/-- Adds a block of sixty-four bytes to the chaining value. -/
def compress (s : Chain) (block : Bytes) : Chain :=
  let schedule := (extend 48 ((batches 4 block).map word).reverse).reverse
  let t := (roundConstants.zip schedule).foldl (fun t (k, w) => round t k w) s
  ⟨s.a + t.a, s.b + t.b, s.c + t.c, s.d + t.d, s.e + t.e, s.f + t.f, s.g + t.g, s.h + t.h⟩

/-- The digest of a message, thirty-two bytes. -/
def digest (message : Bytes) : Bytes :=
  let s := (batches 64 (pad message)).foldl compress Chain.initial
  [s.a, s.b, s.c, s.d, s.e, s.f, s.g, s.h].flatMap wordBytes

end Inventory.Sha256
