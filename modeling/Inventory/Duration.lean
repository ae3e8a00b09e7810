/-!
# Inventory.Duration

Lengths of time and their spelling.

A duration is written in the largest of the units `s`, `ms`, `µs` and `ns` of which it holds at
least one, as a decimal number without trailing zeros: `1.5s`, `300s`, `50ms`, `1.001µs`, `0ns`.
-/

namespace Inventory

/-- A length of time in nanoseconds. -/
structure Duration where
  /-- The number of nanoseconds. -/
  nanoseconds : Nat
deriving DecidableEq, Repr

namespace Duration

/-- A whole number of milliseconds. -/
def ofMilliseconds (n : Nat) : Duration := ⟨n * 1000000⟩

/-- The quotient of `n` by `10 ^ places` as a decimal number without trailing zeros. -/
def decimal (n places : Nat) : String :=
  let fraction := n % Nat.pow 10 places
  let digits := (toString fraction).toList
  let padded := List.replicate (places - digits.length) '0' ++ digits
  let shown := (padded.reverse.dropWhile (· = '0')).reverse
  toString (n / Nat.pow 10 places) ++ (if fraction = 0 then "" else "." ++ String.ofList shown)

/-- The text of a duration, in the largest unit of which it holds at least one. -/
def text (d : Duration) : String :=
  if 1000000000 ≤ d.nanoseconds then decimal d.nanoseconds 9 ++ "s"
  else if 1000000 ≤ d.nanoseconds then decimal d.nanoseconds 6 ++ "ms"
  else if 1000 ≤ d.nanoseconds then decimal d.nanoseconds 3 ++ "µs"
  else toString d.nanoseconds ++ "ns"

end Duration

end Inventory
