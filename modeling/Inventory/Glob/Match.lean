import Inventory.Bytes
import Inventory.Glob.Pattern

/-!
# Inventory.Glob.Match

Which texts a glob matches.

A pattern is matched against the bytes of a text from its beginning to its end. The parts are taken
in turn, and for all ways of matching those so far at once it is known which places of the text they
lead to. So a text takes time in proportion to its length for every part, however many ways there
are.
-/

namespace Inventory.Glob

/-! ## Places of a text -/

/-- A choice of places between the bytes of a text, from the one before the first byte to the one
after the last. -/
abbrev Places := List Bool

namespace Places

/-- The place before the first byte. -/
def start (text : Bytes) : Places := true :: text.map fun _ => false

/-- The places one byte further on, if that byte is accepted. -/
def step (text : Bytes) (accepts : UInt8 → Bool) (places : Places) : Places :=
  false :: List.zipWith (fun b here => here && accepts b) text places

/-- The places and all that come later than one of them. -/
def onwards (places : Places) : Places := go false places
where
  /-- The same, where `before` says whether there is an earlier place. -/
  go (before : Bool) : Places → Places
    | [] => []
    | here :: rest => (before || here) :: go (before || here) rest

/-- The places of both choices. -/
def either (places others : Places) : Places :=
  List.zipWith (fun here there => here || there) places others

/-- Whether the place after the last byte is there. -/
def hasEnd (places : Places) : Bool := places.getLastD false

end Places

/-! ## Matching -/

/-- Whether a byte is a slash. -/
def isSlash (b : UInt8) : Bool := b == 47

/-- Whether a byte lies in the range of a class. A character outside ASCII stands for its bytes,
each on its own, so a range leads from the last byte of its start to the first of its end. -/
def inRange (range : Char × Char) (b : UInt8) : Bool :=
  let first := Bytes.ofText range.1.toString
  let last := Bytes.ofText range.2.toString
  if range.1 = range.2 then first.contains b
  else
    first.contains b || last.contains b ||
      (decide (first.getLastD 0 ≤ b) && decide (b ≤ last.headD 0))

mutual

/-- The places to which a part leads from some places. -/
def Part.reach (text : Bytes) (places : Places) : Part → Places
  | .literal c =>
    (Bytes.ofText c.toString).foldl (fun places b => places.step text (· == b)) places
  | .anyByte => places.step text fun _ => true
  | .anyBytes => places.onwards
  | .leading => places.either (places.onwards.step text isSlash)
  | .trailing => (places.step text isSlash).onwards
  | .between =>
    let after := places.step text isSlash
    after.either (after.onwards.step text isSlash)
  | .byteClass negated ranges => places.step text fun b => ranges.any (inRange · b) != negated
  | .oneOf [] => places
  | .oneOf (branch :: others) => reachAny text places (reachAll text places branch) others
termination_by structural p => p

/-- The places to which the parts of a branch lead, one after the other. -/
def reachAll (text : Bytes) (places : Places) : List Part → Places
  | [] => places
  | p :: ps => reachAll text (p.reach text places) ps
termination_by structural l => l

/-- The places to which one of several branches leads, and those in `found`. -/
def reachAny (text : Bytes) (places found : Places) : List (List Part) → Places
  | [] => found
  | branch :: others => reachAny text places (found.either (reachAll text places branch)) others
termination_by structural l => l

end

/-- Whether a pattern matches a text as a whole. A pattern of nothing but leading directories
matches everything. -/
def isMatch (pattern : List Part) (text : String) : Bool :=
  match pattern with
  | [.leading] => true
  | _ =>
    let bytes := Bytes.ofText text
    (reachAll bytes (Places.start bytes) pattern).hasEnd

end Inventory.Glob
