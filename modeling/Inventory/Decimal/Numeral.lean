import Inventory.Decimal.Binary64

/-!
# Inventory.Decimal.Numeral

Decimal numerals as they stand in a JSON text, and the numbers that they denote.

Rules:

* a numeral is an optional minus, a whole part without superfluous leading zeros, an optional
  fraction and an optional exponent, the last two with at least one digit;
* without fraction and exponent it denotes an integer, if that fits 64 bits with or without sign;
* every other numeral, `-0` among them, denotes a binary64 number, and none if it is too large.
-/

namespace Inventory

/-- A number of a JSON text. -/
inductive Number where
  /-- An integer, from `-2 ^ 63` to `2 ^ 64 - 1`. -/
  | int (n : Int)
  /-- A binary64 number. -/
  | float (x : Binary64)
deriving DecidableEq, Repr

namespace Number

/-- The integers that are kept as such. -/
def InRange (n : Int) : Prop := -9223372036854775808 ≤ n ∧ n < UInt64.size

instance (n : Int) : Decidable (InRange n) := inferInstanceAs (Decidable (_ ∧ _))

/-- The text of a number. -/
def text : Number → List Char
  | .int (.ofNat n) => Nat.toDigits 10 n
  | .int (.negSucc n) => '-' :: Nat.toDigits 10 (n + 1)
  | .float x => x.text

end Number

/-- A decimal numeral as written. -/
structure Numeral where
  /-- Whether it starts with a minus. -/
  negative : Bool
  /-- The digits of the whole part. -/
  whole : List Char
  /-- The digits after the point; there are none without a point. -/
  fraction : List Char := []
  /-- The exponent: whether it is negative, and its digits. -/
  exponent : Option (Bool × List Char) := none
deriving DecidableEq, Repr

namespace Numeral

/-! ## Reading the written form -/

/-- Splits off the longest prefix of digits, which must not be empty. -/
def digits? (input : List Char) : Option (List Char × List Char) :=
  match input.takeWhile Char.isDigit with
  | [] => none
  | digits => some (digits, input.dropWhile Char.isDigit)

/-- Reads the digits of a whole part: a leading zero stands alone. -/
def whole? (input : List Char) : Option (List Char × List Char) :=
  match digits? input with
  | some ('0' :: _ :: _, _) => none
  | found => found

/-- Reads a fraction, if there is a point. -/
def fraction? : List Char → Option (List Char × List Char)
  | '.' :: rest => digits? rest
  | rest => some ([], rest)

/-- Reads an exponent, if there is a mark of one. -/
def exponent? (input : List Char) : Option (Option (Bool × List Char) × List Char) :=
  match input with
  | [] => some (none, [])
  | c :: rest =>
    if c = 'e' ∨ c = 'E' then
      match rest with
      | '-' :: rest => (digits? rest).map fun (ds, rest) => (some (true, ds), rest)
      | '+' :: rest => (digits? rest).map fun (ds, rest) => (some (false, ds), rest)
      | rest => (digits? rest).map fun (ds, rest) => (some (false, ds), rest)
    else some (none, input)

/-- Splits off the sign. -/
def sign : List Char → Bool × List Char
  | '-' :: rest => (true, rest)
  | rest => (false, rest)

/-- Reads a numeral from the front of the input. -/
def scan? (input : List Char) : Option (Numeral × List Char) := do
  let (negative, rest) := sign input
  let (whole, rest) ← whole? rest
  let (fraction, rest) ← fraction? rest
  let (exponent, rest) ← exponent? rest
  return (⟨negative, whole, fraction, exponent⟩, rest)

/-! ## The number denoted -/

/-- A significand that holds as many digits as fit 64 bits, and the power of ten it stands for. -/
structure Significand where
  /-- The digits kept, as a number. -/
  value : Nat := 0
  /-- The power of ten by which the value is to be multiplied. -/
  exponent : Int := 0
  /-- Whether a digit did not fit, after which none is kept. -/
  full : Bool := false

/-- Adds a digit before the point; a digit that does not fit counts as a zero. -/
def Significand.pushWhole (s : Significand) (c : Char) : Significand :=
  let value := s.value * 10 + (c.toNat - '0'.toNat)
  if s.full ∨ UInt64.size ≤ value then { s with exponent := s.exponent + 1, full := true }
  else { s with value }

/-- Adds a digit after the point; a digit that does not fit is dropped. -/
def Significand.pushFraction (s : Significand) (c : Char) : Significand :=
  let value := s.value * 10 + (c.toNat - '0'.toNat)
  if s.full ∨ UInt64.size ≤ value then { s with full := true }
  else { s with value, exponent := s.exponent - 1 }

/-- The significand of the whole part. -/
def wholeSignificand (n : Numeral) : Significand := n.whole.foldl .pushWhole {}

/-- The significand of all digits. The fraction starts anew with the room that the whole part
left, even when a digit of the whole part did not fit. -/
def significand (n : Numeral) : Significand :=
  n.fraction.foldl .pushFraction { n.wholeSignificand with full := false }

/-- The value of the written exponent. -/
def writtenExponent (n : Numeral) : Int :=
  match n.exponent with
  | none => 0
  | some (true, ds) => -(Nat.ofDigitChars 10 ds 0)
  | some (false, ds) => Nat.ofDigitChars 10 ds 0

/-- The integer that the digits of the whole part denote, with the sign. -/
def integer (n : Numeral) : Int :=
  let m := Nat.ofDigitChars 10 n.whole 0
  if n.negative then -m else m

/-- Whether the numeral has neither fraction nor exponent. -/
def isWhole (n : Numeral) : Bool := n.fraction.isEmpty && n.exponent.isNone

/-- The number that a numeral denotes, if it is not too large. -/
def number? (n : Numeral) : Option Number :=
  if n.isWhole ∧ Number.InRange n.integer ∧ ¬(n.negative ∧ n.integer = 0) then some (.int n.integer)
  else
    let s := n.significand
    (Binary64.ofDecimal? s.value (s.exponent + n.writtenExponent)).map fun units =>
      .float ⟨n.negative, units⟩

end Numeral

end Inventory
