/-!
# Inventory.Decimal.Binary64

Finite binary64 numbers in exact arithmetic.

Every finite magnitude is a whole number of *units* of `2 ^ -1074`, so a number is a sign and a
natural number, and one function rounds a quotient of natural numbers to the nearest magnitude.
The representable magnitudes are `0` and `m * 2 ^ s` with `m < 2 ^ 53`; they end below `limit`.
-/

namespace Inventory

/-- A finite binary64 number: its sign and its magnitude in units of `2 ^ -1074`. -/
structure Binary64 where
  /-- Whether the sign is a minus, which zero may carry too. -/
  negative : Bool
  /-- The magnitude in units of `2 ^ -1074`. -/
  units : Nat
deriving DecidableEq, Repr

namespace Binary64

/-- The units in the number one. -/
def one : Nat := Nat.pow 2 1074

/-- The first power of two, in units, that is beyond the finite numbers. -/
def limit : Nat := Nat.pow 2 2098

/-- The exponent of the gap, in units, between the magnitudes near `units`. -/
def gapExponent (units : Nat) : Nat := Nat.log2 units - 52

/-- The magnitude nearest to `num / den`, a half going to the even neighbour; it may reach
`limit`. -/
def nearest (num den : Nat) : Nat :=
  let scaled := num * one
  let gap := Nat.pow 2 (gapExponent (scaled / den))
  let below := scaled / (den * gap)
  let left := scaled % (den * gap)
  if den * gap < 2 * left ∨ (2 * left = den * gap ∧ below % 2 = 1) then (below + 1) * gap
  else below * gap

/-- The rounded product of two magnitudes. -/
def mul (a b : Nat) : Nat := nearest (a * b) (one * one)

/-- The rounded quotient of two magnitudes. -/
def div (a b : Nat) : Nat := nearest a b

/-- The magnitude nearest to a power of ten. -/
def powerOfTen (n : Nat) : Nat := nearest (Nat.pow 10 n) 1

/-- Divides a magnitude by a power of ten, in steps no larger than `10 ^ 308`, rounding at each. -/
def divByPowerOfTen (units n : Nat) : Nat :=
  if n ≤ 308 then div units (powerOfTen n)
  else if units = 0 then 0
  else divByPowerOfTen (div units (powerOfTen 308)) (n - 308)
termination_by n

/-- The magnitude `significand * 10 ^ exponent`, or nothing if it is too large.

The significand is rounded first and then scaled by one rounded power of ten, so the result can
differ from the nearest magnitude in its last bit. -/
def ofDecimal? (significand : Nat) (exponent : Int) : Option Nat :=
  let units := nearest significand 1
  match exponent with
  | .ofNat n =>
    if 308 < n then (if units = 0 then some 0 else none)
    else
      let product := mul units (powerOfTen n)
      if product < limit then some product else none
  | .negSucc n => some (divByPowerOfTen units (n + 1))

/-! ## The fewest digits that read back -/

/-- The multiple `d * 10 ^ k` that is nearest to a magnitude among those that round to it, if the
grid of the multiples of `10 ^ k` has one.

Everything is compared in quarters of a unit, multiplied by `10 ^ -k` for a negative `k`. The reals
that round to the magnitude lie half a gap away on either side, or a quarter below a power of two,
and the ends belong to them when the magnitude is even. -/
def onGrid? (units : Nat) (k : Int) : Option Nat :=
  let gap := Nat.pow 2 (gapExponent units)
  let scale := Nat.pow 10 (-k).toNat
  let step := Nat.pow 10 k.toNat * 4 * one
  let value := 4 * units * scale
  let upper := value + 2 * gap * scale
  let lower := value - (if units = Nat.pow 2 52 * gap ∧ 1 < gap then gap else 2 * gap) * scale
  let even := units / gap % 2 = 0
  let roundsBack := fun (d : Nat) =>
    decide ((lower < d * step ∨ (even ∧ d * step = lower)) ∧
      (d * step < upper ∨ (even ∧ d * step = upper)))
  let d := value / step
  match roundsBack d, roundsBack (d + 1) with
  | false, false => none
  | true, false => some d
  | false, true => some (d + 1)
  | true, true =>
    let left := 2 * (value - d * step)
    if left < step ∨ (left = step ∧ d % 2 = 0) then some d else some (d + 1)

/-- An exponent `k` such that `10 ^ (k + 1)` is beyond a positive magnitude and all that rounds to
it. A power of two has at most `0.30103` times as many decimal places as binary ones. -/
def coarsest (units : Nat) : Int := ((Nat.log2 units : Int) - 1073) * 30103 / 100000 + 1

/-- The digits `d` and exponent `k` of the shortest decimal `d * 10 ^ k` that reads back as a
positive magnitude, found on the coarsest grid that has one. As seventeen digits always suffice,
twenty grids are enough. -/
def shortest (units : Nat) : Nat × Int :=
  ((List.range 20).findSome? fun (i : Nat) =>
    let k := coarsest units - i
    (onGrid? units k).map fun d => (d, k)).getD (0, 0)

/-- Lays out the decimal `digits * 10 ^ k`: positional when the exponent of the first digit lies
from -5 to 15, always with a point, and scientific with a signed exponent otherwise. -/
def layout (digits : List Char) (k : Int) : List Char :=
  let first := k + digits.length - 1
  if -5 ≤ first ∧ first ≤ 15 then
    if 0 ≤ k then digits ++ List.replicate k.toNat '0' ++ ['.', '0']
    else if 0 ≤ first then
      digits.take (first.toNat + 1) ++ '.' :: digits.drop (first.toNat + 1)
    else '0' :: '.' :: List.replicate (-first - 1).toNat '0' ++ digits
  else
    let mantissa := match digits with
      | d :: e :: rest => d :: '.' :: e :: rest
      | short => short
    mantissa ++ 'e' :: (if first < 0 then '-' else '+') :: Nat.toDigits 10 first.natAbs

/-- The text of a number: its shortest decimal, laid out. -/
def text (x : Binary64) : List Char :=
  let magnitude :=
    if x.units = 0 then ['0', '.', '0']
    else layout (Nat.toDigits 10 (shortest x.units).1) (shortest x.units).2
  if x.negative then '-' :: magnitude else magnitude

end Binary64

end Inventory
