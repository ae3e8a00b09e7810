import Inventory.Collections
import Inventory.Deflate.Code

/-!
# Inventory.Deflate.Inflate

Reading DEFLATE data.

The data is a sequence of blocks, the last of which says so. A block holds bytes as they are, or
literals and references to earlier output in a fixed code or in one that the block describes.
-/

namespace Inventory.Deflate

/-! ## References -/

/-- The least length for each length symbol from 257 on, and the width of what is added to it. -/
def lengthTable : List (Nat × Nat) :=
  [(3, 0), (4, 0), (5, 0), (6, 0), (7, 0), (8, 0), (9, 0), (10, 0), (11, 1), (13, 1), (15, 1),
   (17, 1), (19, 2), (23, 2), (27, 2), (31, 2), (35, 3), (43, 3), (51, 3), (59, 3), (67, 4),
   (83, 4), (99, 4), (115, 4), (131, 5), (163, 5), (195, 5), (227, 5), (258, 0)]

/-- The least distance for each distance symbol, and the width of what is added to it. -/
def distanceTable : List (Nat × Nat) :=
  [(1, 0), (2, 0), (3, 0), (4, 0), (5, 1), (7, 1), (9, 2), (13, 2), (17, 3), (25, 3), (33, 4),
   (49, 4), (65, 5), (97, 5), (129, 6), (193, 6), (257, 7), (385, 7), (513, 8), (769, 8), (1025, 9),
   (1537, 9), (2049, 10), (3073, 10), (4097, 11), (6145, 11), (8193, 12), (12289, 12), (16385, 13),
   (24577, 13)]

/-- Reads the value of the symbol at a position of a table. -/
def extended? (table : List (Nat × Nat)) (position : Nat) (bits : Bits) : Option (Nat × Bits) :=
  match table[position]? with
  | none => none
  | some (least, width) => (bits.number? width).map fun (n, rest) => (least + n, rest)

/-- Reads the rest of a reference whose length has the given symbol: its length and distance. -/
def reference? (distances : Code) (symbol : Nat) (bits : Bits) : Option ((Nat × Nat) × Bits) :=
  match extended? lengthTable (symbol - 257) bits with
  | none => none
  | some (length, bits) =>
    match distances.decode? bits with
    | none => none
    | some (symbol, bits) =>
      (extended? distanceTable symbol bits).map fun (distance, bits) => ((length, distance), bits)

/-- Appends bytes that stand `distance` before the end, one at a time. -/
def copy (distance : Nat) : Nat → Array UInt8 → Array UInt8
  | 0, output => output
  | n + 1, output => copy distance n (output.push (output.getD (output.size - distance) 0))

theorem length_le_of_extended? {table : List (Nat × Nat)} {position n : Nat} {bits rest : Bits}
    (h : extended? table position bits = some (n, rest)) : rest.length ≤ bits.length := by
  simp only [extended?] at h
  split at h
  · cases h
  · obtain ⟨⟨m, r⟩, hn, heq⟩ := Option.map_eq_some_iff.1 h
    cases heq
    exact Bits.length_le_of_number? hn

theorem length_le_of_reference? {distances : Code} {symbol : Nat} {found : Nat × Nat}
    {bits rest : Bits} (h : reference? distances symbol bits = some (found, rest)) :
    rest.length ≤ bits.length := by
  unfold reference? at h
  cases he : extended? lengthTable (symbol - 257) bits with
  | none => rw [he] at h; cases h
  | some first =>
    rw [he] at h
    cases hd : distances.decode? first.2 with
    | none => simp only [hd] at h; cases h
    | some second =>
      simp only [hd, Option.map_eq_some_iff] at h
      obtain ⟨third, hx, heq⟩ := h
      have h₁ := length_le_of_extended? he
      have h₂ := Code.length_lt_of_decode? hd
      have h₃ := length_le_of_extended? hx
      rw [show third.2 = rest from congrArg Prod.snd heq] at h₃
      omega

/-! ## Blocks -/

/-- What stands in a block that is not stored. -/
inductive Item where
  | literal (b : UInt8)
  | reference (length distance : Nat)
  | stop

/-- Reads one item. -/
def item? (literals distances : Code) (bits : Bits) : Option (Item × Bits) :=
  match literals.decode? bits with
  | none => none
  | some (symbol, rest) =>
    if symbol < 256 then some (.literal (UInt8.ofNat symbol), rest)
    else if symbol = 256 then some (.stop, rest)
    else (reference? distances symbol rest).map fun (found, rest) =>
      (.reference found.1 found.2, rest)

theorem length_lt_of_item? {literals distances : Code} {item : Item} {bits rest : Bits}
    (h : item? literals distances bits = some (item, rest)) : rest.length < bits.length := by
  unfold item? at h
  cases hd : literals.decode? bits with
  | none => rw [hd] at h; cases h
  | some first =>
    have hlt := Code.length_lt_of_decode? hd
    simp only [hd] at h
    split at h
    · cases h; exact hlt
    · split at h
      · cases h; exact hlt
      · obtain ⟨second, hr, heq⟩ := Option.map_eq_some_iff.1 h
        have hle := length_le_of_reference? hr
        rw [show second.2 = rest from congrArg Prod.snd heq] at hle
        omega

/-- Reads items up to the end of the block. -/
def items? (literals distances : Code) (output : Array UInt8) (bits : Bits) :
    Option (Array UInt8 × Bits) :=
  match _h : item? literals distances bits with
  | none => none
  | some (.literal b, rest) => items? literals distances (output.push b) rest
  | some (.stop, rest) => some (output, rest)
  | some (.reference length distance, rest) =>
    if distance ≤ output.size then items? literals distances (copy distance length output) rest
    else none
termination_by bits.length
decreasing_by all_goals exact length_lt_of_item? _h

/-- Reads a block of bytes as they are: their number, its complement, and the bytes. -/
def stored? (output : Array UInt8) (bits : Bits) : Option (Array UInt8 × Bits) := do
  let (length, bits) ← bits.align.number? 16
  let (complement, bits) ← bits.number? 16
  if length + complement = 0xFFFF ∧ (bits.take (8 * length)).length = 8 * length then
    some (output ++ (Bits.toBytes (bits.take (8 * length))).toArray, bits.drop (8 * length))
  else none

/-! ## Codes of blocks -/

/-- The lengths of the words of the fixed code of literals and lengths. -/
def fixedLiteralLengths : List Nat :=
  List.replicate 144 8 ++ List.replicate 112 9 ++ List.replicate 24 7 ++ List.replicate 8 8

/-- The lengths of the words of the fixed code of distances. -/
def fixedDistanceLengths : List Nat := List.replicate 32 5

/-- The order in which the lengths of the code of the lengths are written. -/
def lengthOrder : List Nat := [16, 17, 18, 0, 8, 7, 9, 6, 10, 5, 11, 4, 12, 3, 13, 2, 14, 1, 15]

/-- Reads `count` numbers of three bits. -/
def triples? : Nat → Bits → Option (List Nat × Bits)
  | 0, bits => some ([], bits)
  | count + 1, bits =>
    match bits.number? 3 with
    | none => none
    | some (n, bits) => (triples? count bits).map fun (ns, bits) => (n :: ns, bits)

/-- Reads what a repetition symbol repeats, and how often. -/
def repetition? (last : Option Nat) (symbol : Nat) (bits : Bits) : Option ((Nat × Nat) × Bits) :=
  if symbol = 16 then
    last.bind fun length => (bits.number? 2).map fun (n, bits) => ((length, n + 3), bits)
  else if symbol = 17 then (bits.number? 3).map fun (n, bits) => ((0, n + 3), bits)
  else (bits.number? 7).map fun (n, bits) => ((0, n + 11), bits)

theorem length_le_of_repetition? {last : Option Nat} {symbol : Nat} {found : Nat × Nat}
    {bits rest : Bits} (h : repetition? last symbol bits = some (found, rest)) :
    rest.length ≤ bits.length := by
  simp only [repetition?] at h
  split at h
  · obtain ⟨length, _, h⟩ := Option.bind_eq_some_iff.1 h
    obtain ⟨⟨n, r⟩, hn, heq⟩ := Option.map_eq_some_iff.1 h
    cases heq
    exact Bits.length_le_of_number? hn
  · split at h <;>
    · obtain ⟨⟨n, r⟩, hn, heq⟩ := Option.map_eq_some_iff.1 h
      cases heq
      exact Bits.length_le_of_number? hn

/-- Reads lengths of words until `needed` are there; those in `done` come last first. -/
def lengths? (code : Code) (needed : Nat) (done : List Nat) (bits : Bits) :
    Option (List Nat × Bits) :=
  if done.length = needed then some (done.reverse, bits)
  else
    match _h : code.decode? bits with
    | none => none
    | some (symbol, rest) =>
      if symbol < 16 then lengths? code needed (symbol :: done) rest
      else
        match _hr : repetition? done.head? symbol rest with
        | none => none
        | some ((length, count), after) =>
          if done.length + count ≤ needed then
            lengths? code needed (List.replicate count length ++ done) after
          else none
termination_by bits.length
decreasing_by
  · exact Code.length_lt_of_decode? _h
  · exact Nat.lt_of_le_of_lt (length_le_of_repetition? _hr) (Code.length_lt_of_decode? _h)

/-- Reads the description of the codes of a block. -/
def describedCodes? (bits : Bits) : Option ((Code × Code) × Bits) := do
  let (literalCount, bits) ← bits.number? 5
  let (distanceCount, bits) ← bits.number? 5
  let (lengthCount, bits) ← bits.number? 4
  let literalCount := literalCount + 257
  let distanceCount := distanceCount + 1
  if 286 < literalCount ∨ 30 < distanceCount then none
  else
    let (written, bits) ← triples? (lengthCount + 4) bits
    let lengthLengths := (List.range 19).map fun symbol =>
      ((lengthOrder.zip written).lookup symbol).getD 0
    let code ← Code.ofLengths? lengthLengths false
    let (lengths, bits) ← lengths? code (literalCount + distanceCount) [] bits
    let literals ← Code.ofLengths? (lengths.take literalCount) true
    let distances ← Code.ofLengths? (lengths.drop literalCount) true
    return ((literals, distances), bits)

/-- Reads a block after the bit that tells whether it is the last one. -/
def block? (output : Array UInt8) : Bits → Option (Array UInt8 × Bits)
  | false :: false :: bits => stored? output bits
  | true :: false :: bits => do
    let literals ← Code.ofLengths? fixedLiteralLengths false
    let distances ← Code.ofLengths? fixedDistanceLengths false
    items? literals distances output bits
  | false :: true :: bits => do
    let ((literals, distances), bits) ← describedCodes? bits
    items? literals distances output bits
  | _ => none

/-- Reads at most `limit` blocks up to the last one. -/
def blocks? : Nat → Array UInt8 → Bits → Option (Array UInt8 × Bits)
  | limit + 1, output, last :: bits =>
    match block? output bits with
    | none => none
    | some (output, bits) => if last then some (output, bits) else blocks? limit output bits
  | _, _, _ => none

/-- Reads DEFLATE data from the front of a byte string: the output and the bytes after the data.
Every block takes a bit, so there are no more blocks than bits. -/
def inflate? (input : Bytes) : Option (Bytes × Bytes) :=
  let bits := Bits.ofBytes input
  (blocks? bits.length #[] bits).map fun (output, rest) => (output.toList, rest.align.toBytes)

/-! ## Writing -/

/-- A block of bytes as they are, at most `0xFFFF` of them. -/
def storedBlock (isLast : Bool) (content : Bytes) : Bytes :=
  let length := content.length
  (if isLast then 1 else 0) :: UInt8.ofNat length :: UInt8.ofNat (length / 256) ::
    UInt8.ofNat (0xFFFF - length) :: UInt8.ofNat ((0xFFFF - length) / 256) :: content

/-- The blocks for a list of contents, and an empty last one. -/
def storedBlocks : List Bytes → Bytes
  | [] => storedBlock true []
  | content :: rest => storedBlock false content ++ storedBlocks rest

end Inventory.Deflate
