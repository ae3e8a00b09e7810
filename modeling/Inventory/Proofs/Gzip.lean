import Inventory.Gzip
import Mathlib.Algebra.Group.Nat.Defs

/-!
# Inventory.Proofs.Gzip

What is wrapped as a gzip member is read from it.

Members are written with stored blocks only. On the way back, such a block begins and ends where a byte
does (`block?_storedBlock`), so reading goes through the blocks one by one (`blocks?_storedBlocks`) and
through the header and the trailer in bytes (`decode?_encode`).
-/

namespace Inventory

namespace Deflate

/-! ## Bits of bytes -/

namespace Bits

@[simp] theorem length_ofByte (b : UInt8) : (ofByte b).length = 8 := by simp [ofByte]

@[simp] theorem ofBytes_nil : ofBytes [] = [] := rfl

@[simp] theorem ofBytes_cons (b : UInt8) (l : Bytes) : ofBytes (b :: l) = ofByte b ++ ofBytes l := by
  simp [ofBytes]

@[simp] theorem ofBytes_append (l l' : Bytes) : ofBytes (l ++ l') = ofBytes l ++ ofBytes l' := by
  simp [ofBytes]

@[simp] theorem length_ofBytes (l : Bytes) : (ofBytes l).length = 8 * l.length := by
  induction l with
  | nil => rfl
  | cons b l ih => simp only [ofBytes_cons, List.length_append, length_ofByte, ih, List.length_cons]; omega

theorem toNat_append (a b : Bits) : toNat (a ++ b) = toNat a + 2 ^ a.length * toNat b := by
  induction a with
  | nil => simp [toNat]
  | cons bit a ih =>
      have hcons : ∀ l : Bits, toNat (bit :: l) = 2 * toNat l + bit.toNat := fun _ => rfl
      have hdouble : 2 ^ a.length * 2 * toNat b = 2 * (2 ^ a.length * toNat b) := by
        rw [Nat.mul_comm (2 ^ a.length) 2, Nat.mul_assoc]
      rw [List.cons_append, hcons, hcons, ih, List.length_cons, Nat.pow_succ, hdouble]
      omega

@[simp] theorem toNat_ofByte (b : UInt8) : toNat (ofByte b) = b.toNat := by
  have hall : ∀ n : Fin 256, toNat ((List.range 8).map n.val.testBit) = n.val := by
    decide +kernel
  exact hall ⟨b.toNat, b.toNat_lt⟩

theorem toNat_ofBytes_cons (b : UInt8) (l : Bytes) :
    toNat (ofBytes (b :: l)) = b.toNat + 256 * toNat (ofBytes l) := by
  simp [toNat_append]

theorem toBytes_ofByte_append (b : UInt8) (bits : Bits) :
    toBytes (ofByte b ++ bits) = b :: toBytes bits := by
  have hbits : ofByte b = [b.toNat.testBit 0, b.toNat.testBit 1, b.toNat.testBit 2,
      b.toNat.testBit 3, b.toNat.testBit 4, b.toNat.testBit 5, b.toNat.testBit 6,
      b.toNat.testBit 7] := rfl
  rw [hbits]
  simp only [List.cons_append, List.nil_append, toBytes]
  rw [← hbits, toNat_ofByte, UInt8.ofNat_toNat]

@[simp] theorem toBytes_ofBytes (l : Bytes) : toBytes (ofBytes l) = l := by
  induction l with
  | nil => rfl
  | cons b l ih => rw [ofBytes_cons, toBytes_ofByte_append, ih]

/-- A number of whole bytes is read from the front of bytes. -/
theorem number?_ofBytes_append (l : Bytes) (bits : Bits) :
    number? (8 * l.length) (ofBytes l ++ bits) = some (toNat (ofBytes l), bits) := by
  have htake : (ofBytes l ++ bits).take (8 * l.length) = ofBytes l :=
    List.take_left' (length_ofBytes l)
  have hdrop : (ofBytes l ++ bits).drop (8 * l.length) = bits := List.drop_left' (length_ofBytes l)
  rw [number?, htake, hdrop, if_pos (length_ofBytes l)]

/-- What follows an incomplete byte is found by its length. -/
theorem align_append {bits : Bits} (h : bits.length < 8) (l : Bytes) :
    align (bits ++ ofBytes l) = ofBytes l := by
  have hlength : (bits ++ ofBytes l).length % 8 = bits.length := by
    rw [List.length_append, length_ofBytes]
    omega
  rw [align, hlength, List.drop_left]

end Bits

/-! ## Stored blocks -/

/-- A number as two bytes, the lowest first. -/
def pair (n : Nat) : Bytes := [UInt8.ofNat n, UInt8.ofNat (n / 256)]

theorem number?_pair {n : Nat} (h : n ≤ 0xFFFF) (bits : Bits) :
    Bits.number? 16 (Bits.ofBytes (pair n) ++ bits) = some (n, bits) := by
  have hnil : Bits.toNat [] = 0 := rfl
  have hvalue : Bits.toNat (Bits.ofBytes (pair n)) = n := by
    simp only [pair, Bits.toNat_ofBytes_cons, Bits.ofBytes_nil, UInt8.toNat_ofNat', hnil]
    omega
  have hread := Bits.number?_ofBytes_append (pair n) bits
  rwa [hvalue] at hread

theorem storedBlock_eq (isLast : Bool) (content : Bytes) :
    storedBlock isLast content = (if isLast then 1 else 0) ::
      (pair content.length ++ pair (0xFFFF - content.length) ++ content) := rfl

/-- The bytes of a stored block follow its length and the complement of it. -/
theorem stored?_append {content : Bytes} (h : content.length ≤ 0xFFFF) (output : Array UInt8)
    {bits : Bits} (hbits : bits.length < 8) (rest : Bytes) :
    stored? output (bits ++ Bits.ofBytes
      (pair content.length ++ pair (0xFFFF - content.length) ++ content ++ rest)) =
      some (output ++ content.toArray, Bits.ofBytes rest) := by
  have hsum : content.length + (0xFFFF - content.length) = 0xFFFF := Nat.add_sub_of_le h
  have htake : (Bits.ofBytes content ++ Bits.ofBytes rest).take (8 * content.length) =
      Bits.ofBytes content := List.take_left' (Bits.length_ofBytes content)
  have hdrop : (Bits.ofBytes content ++ Bits.ofBytes rest).drop (8 * content.length) =
      Bits.ofBytes rest := List.drop_left' (Bits.length_ofBytes content)
  rw [stored?, Bits.align_append hbits]
  simp only [Bits.ofBytes_append, List.append_assoc, number?_pair h,
    number?_pair (Nat.sub_le 0xFFFF content.length), Option.bind_eq_bind, Option.bind_some]
  rw [htake, hdrop, Bits.length_ofBytes, Bits.toBytes_ofBytes, if_pos ⟨hsum, rfl⟩]

/-- The first bit of a stored block says whether it is the last one; the block is read from the bits
after it. -/
theorem block?_storedBlock {content : Bytes} (h : content.length ≤ 0xFFFF) (isLast : Bool)
    (output : Array UInt8) (rest : Bytes) :
    ∃ bits, Bits.ofBytes (storedBlock isLast content ++ rest) = isLast :: bits ∧
      block? output bits = some (output ++ content.toArray, Bits.ofBytes rest) := by
  have hfirst : Bits.ofByte (if isLast then 1 else 0) =
      isLast :: false :: false :: List.replicate 5 false := by
    cases isLast <;> decide
  let stored := pair content.length ++ pair (0xFFFF - content.length) ++ content ++ rest
  refine ⟨false :: false :: (List.replicate 5 false ++ Bits.ofBytes stored), ?_, ?_⟩
  · rw [storedBlock_eq, List.cons_append, Bits.ofBytes_cons, hfirst]
    rfl
  · exact stored?_append h output (by decide : (List.replicate 5 false).length < 8) rest

theorem blocks?_storedBlocks {contents : List Bytes} (h : ∀ c ∈ contents, c.length ≤ 0xFFFF)
    {limit : Nat} (hlimit : contents.length < limit) (output : Array UInt8) (rest : Bytes) :
    blocks? limit output (Bits.ofBytes (storedBlocks contents ++ rest)) =
      some (output ++ contents.flatten.toArray, Bits.ofBytes rest) := by
  induction contents generalizing limit output with
  | nil =>
      obtain ⟨limit, rfl⟩ := Nat.exists_eq_add_one_of_ne_zero (Nat.ne_of_gt hlimit)
      have hempty : ([] : Bytes).length ≤ 0xFFFF := Nat.zero_le _
      obtain ⟨bits, hbits, hblock⟩ := block?_storedBlock hempty true output rest
      rw [storedBlocks, hbits, blocks?, hblock]
      simp
  | cons content contents ih =>
      obtain ⟨limit, rfl⟩ := Nat.exists_eq_add_one_of_ne_zero (Nat.ne_of_gt (Nat.zero_lt_of_lt hlimit))
      rw [List.forall_mem_cons] at h
      obtain ⟨bits, hbits, hblock⟩ := block?_storedBlock h.1 false output
        (storedBlocks contents ++ rest)
      rw [storedBlocks, List.append_assoc, hbits, blocks?, hblock]
      simp only [Bool.false_eq_true, if_false]
      rw [ih h.2 (Nat.lt_of_succ_lt_succ hlimit)]
      simp

/-- Every block has a byte of its own at least. -/
theorem length_lt_storedBlocks (contents : List Bytes) :
    contents.length < (storedBlocks contents).length := by
  induction contents with
  | nil => decide
  | cons content contents ih =>
      simp only [storedBlocks, storedBlock, List.length_cons, List.length_append]
      omega

theorem inflate?_storedBlocks {contents : List Bytes} (h : ∀ c ∈ contents, c.length ≤ 0xFFFF)
    (rest : Bytes) : inflate? (storedBlocks contents ++ rest) = some (contents.flatten, rest) := by
  have hlimit : contents.length < (Bits.ofBytes (storedBlocks contents ++ rest)).length := by
    have hblocks := length_lt_storedBlocks contents
    rw [Bits.length_ofBytes, List.length_append]
    omega
  have halign : Bits.align (Bits.ofBytes rest) = Bits.ofBytes rest :=
    Bits.align_append (by decide : ([] : Bits).length < 8) rest
  rw [inflate?, blocks?_storedBlocks h hlimit]
  simp [halign]

end Deflate

/-! ## Members -/

namespace Gzip

open Deflate

theorem take?_append (l rest : Bytes) : take? l.length (l ++ rest) = some (l, rest) := by
  simp [take?]

theorem skipHeader?_header (rest : Bytes) : skipHeader? (header ++ rest) = some rest := by
  have htake : take? 10 (header ++ rest) = some (header, rest) := take?_append header rest
  rw [skipHeader?, htake]
  rfl

theorem numberOf_wordBytes (n : Nat) : numberOf (wordBytes n) = n % 0x100000000 := by
  have hnil : Bits.toNat [] = 0 := rfl
  simp only [numberOf, wordBytes, Bits.toNat_ofBytes_cons, Bits.ofBytes_nil, UInt8.toNat_ofNat', hnil]
  omega

/-- The content of a member that is written is read from it. -/
theorem decode?_encode (content : Bytes) : decode? (encode content) = some content := by
  have hblocks : ∀ b ∈ batches 0xFFFF content, b.length ≤ 0xFFFF :=
    fun b hb => length_le_of_mem_batches hb
  have hchecksum : (Crc32.checksum content).toNat % 0x100000000 = (Crc32.checksum content).toNat :=
    Nat.mod_eq_of_lt (Crc32.checksum content).toNat_lt
  let sum := wordBytes (Crc32.checksum content).toNat
  let length := wordBytes content.length
  have hencode : encode content =
      header ++ (storedBlocks (batches 0xFFFF content) ++ (sum ++ length)) := by
    simp [encode, sum, length]
  have hsum : take? 4 (sum ++ length) = some (sum, length) := take?_append sum length
  have hlength : take? 4 length = some (length, []) := by
    have htake : take? 4 (length ++ []) = some (length, []) := take?_append length []
    rwa [List.append_nil] at htake
  rw [decode?, hencode, skipHeader?_header]
  simp only [Option.bind_eq_bind, Option.bind_some]
  rw [inflate?_storedBlocks hblocks, flatten_batches]
  simp only [Option.bind_some, hsum, hlength]
  rw [if_pos ⟨(numberOf_wordBytes _).trans hchecksum, numberOf_wordBytes _⟩]

theorem looksLike_encode (content : Bytes) : looksLike (encode content) = true := rfl

end Gzip

end Inventory
