import Inventory.Key.Segment

/-!
# Inventory.Key.Basic

Keys of cached entities in structured form.

A key names a provider, a type, an account, a region and a name, in this order, and after them any
segments of its own; none of them is empty. Keys are all that is known of the scope of an entity.
-/

namespace Inventory

/-- The structured form of a key. -/
structure Key where
  provider : String
  type : String
  account : String
  region : String
  name : String
  /-- The segments after the name. -/
  extra : List String := []
deriving DecidableEq, Repr

namespace Key

/-- The segments of a key, in order. -/
def segments (k : Key) : List String :=
  k.provider :: k.type :: k.account :: k.region :: k.name :: k.extra

/-- The text of a key. -/
def text (k : Key) : String := Segment.join k.segments

/-- The number of segments that every key has. -/
def requiredSegments : Nat := 5

/-- The key of a list of segments. -/
def ofSegments? : List String → Option Key
  | provider :: type :: account :: region :: name :: extra =>
    some ⟨provider, type, account, region, name, extra⟩
  | _ => none

/-- The provider segment of a text, as written, unless it is empty. -/
def providerOf? (s : String) : Option String :=
  match Segment.split s with
  | [] => none
  | first :: _ => if first.isEmpty then none else some first

/-- The text of the key of a resource. -/
def resource (provider type account region name : String) : String :=
  Segment.join [provider, type, account, region, name]

/-- The segments of the key `key`, unescaped one after the other; the first fault is reported. -/
def unescapeAll (key : String) : List String → Except Error (List String)
  | [] => .ok []
  | s :: rest => do
    if s.isEmpty then throw (.malformedKey key .emptySegment)
    let first ← Segment.unescape s
    let others ← unescapeAll key rest
    return first :: others

end Key

/-! ## Parsers -/

/-- A parser of keys, for one provider or, with an empty name, for all. -/
structure KeyParser where
  /-- The provider whose keys are accepted; empty for any. -/
  provider : String := ""
deriving DecidableEq, Repr

namespace KeyParser

/-- The parser of the keys of all providers. -/
def any : KeyParser := {}

/-- Reads a key. -/
def parse (p : KeyParser) (s : String) : Except Error Key := do
  let raw := Segment.split s
  if raw.length < Key.requiredSegments then
    throw (.malformedKey s (.tooFewSegments Key.requiredSegments raw.length))
  let segments ← Key.unescapeAll s raw
  match Key.ofSegments? segments with
  | none => throw (.malformedKey s (.tooFewSegments Key.requiredSegments segments.length))
  | some key =>
    if p.provider ≠ "" ∧ key.provider ≠ p.provider then
      throw (.malformedKey s (.wrongProvider key.provider p.provider))
    return key

end KeyParser

end Inventory
