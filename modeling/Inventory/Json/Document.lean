import Inventory.Json.Token
import Inventory.Json.Value

/-!
# Inventory.Json.Document

A JSON text as it is written, and the value that it denotes.

Reading a text goes through two trees. A `Document` keeps what stands in the text: repeated names,
strings and numerals that denote nothing, any depth. Its `value?` then demands that everything
denotes something, that no more than a given number of containers are nested in one another, and
lets the last of several equal names win, at the place of the first. The two are kept apart because
a reader that skips a part of a document asks nothing of that part but its syntax.

The tree is built by a machine that takes one token at a time and keeps the containers that are
still open on a stack, so no input makes it recurse.
-/

namespace Inventory.Json

/-- A JSON text as a tree. -/
inductive Document where
  /-- The value `null`. -/
  | null
  /-- A truth value. -/
  | bool (b : Bool)
  /-- A numeral, with the number that it denotes. -/
  | number (n : Option Number)
  /-- A string, with the text that it denotes. -/
  | string (s : Option String)
  /-- A list of documents. -/
  | array (items : List Document)
  /-- The fields of an object as written. -/
  | object (fields : List (Option String × Document))

namespace Document

/-! ## From tokens -/

/-- A container that waits for a value, with what it holds already, the last first. -/
inductive Frame where
  /-- An array. -/
  | items (done : List Document)
  /-- An object whose field of the given name waits for its value. -/
  | field (done : List (Option String × Document)) (name : Option String)

/-- What has been read, by what may come next; the open containers are innermost first. -/
inductive Progress where
  /-- A value must come. -/
  | value (enclosing : List Frame)
  /-- A value must come, or the end of an array without items. -/
  | valueOrEnd (enclosing : List Frame)
  /-- A comma must come, or the end of the array. -/
  | afterItem (done : List Document) (enclosing : List Frame)
  /-- A name must come, or the end of an object without fields. -/
  | nameOrEnd (enclosing : List Frame)
  /-- A name must come. -/
  | name (done : List (Option String × Document)) (enclosing : List Frame)
  /-- The colon after a name must come. -/
  | colon (done : List (Option String × Document)) (name : Option String) (enclosing : List Frame)
  /-- A comma must come, or the end of the object. -/
  | afterField (done : List (Option String × Document)) (enclosing : List Frame)
  /-- Nothing may come. -/
  | complete (d : Document)

/-- Hands a finished document to the innermost open container. -/
def give (d : Document) : List Frame → Progress
  | [] => .complete d
  | .items done :: enclosing => .afterItem (d :: done) enclosing
  | .field done name :: enclosing => .afterField ((name, d) :: done) enclosing

/-- Takes a token where a value must come. -/
def takeValue? (enclosing : List Frame) : Token → Option Progress
  | .openObject => some (.nameOrEnd enclosing)
  | .openArray => some (.valueOrEnd enclosing)
  | .null => some (give .null enclosing)
  | .bool b => some (give (.bool b) enclosing)
  | .string s => some (give (.string s) enclosing)
  | .number n => some (give (.number n) enclosing)
  | _ => none

/-- Takes one token. -/
def take? : Progress → Token → Option Progress
  | .value enclosing, token => takeValue? enclosing token
  | .valueOrEnd enclosing, .closeArray => some (give (.array []) enclosing)
  | .valueOrEnd enclosing, token => takeValue? (.items [] :: enclosing) token
  | .afterItem done enclosing, .comma => some (.value (.items done :: enclosing))
  | .afterItem done enclosing, .closeArray => some (give (.array done.reverse) enclosing)
  | .nameOrEnd enclosing, .closeObject => some (give (.object []) enclosing)
  | .nameOrEnd enclosing, .string s => some (.colon [] s enclosing)
  | .name done enclosing, .string s => some (.colon done s enclosing)
  | .colon done name enclosing, .colon => some (.value (.field done name :: enclosing))
  | .afterField done enclosing, .comma => some (.name done enclosing)
  | .afterField done enclosing, .closeObject => some (give (.object done.reverse) enclosing)
  | _, _ => none

/-- The document that a list of tokens forms, if it is one. -/
def ofTokens? (tokens : List Token) : Option Document :=
  match tokens.foldlM take? (.value []) with
  | some (.complete d) => some d
  | _ => none

/-- Reads a JSON text. -/
def parse? (s : String) : Option Document := (Token.ofText? s).bind ofTokens?

/-! ## To values -/

mutual

/-- The value that a document denotes, if no more than `room` containers are nested in it. -/
def value? (room : Nat) : Document → Option Json
  | .null => some .null
  | .bool b => some (.bool b)
  | .number n => n.map .number
  | .string s => s.map .string
  | .array items =>
    match room with
    | 0 => none
    | room + 1 => (values? room items).map .array
  | .object fields =>
    match room with
    | 0 => none
    | room + 1 => (fields? room [] fields).map .object
termination_by structural d => d

/-- The values that a list of documents denotes. -/
def values? (room : Nat) : List Document → Option (List Json)
  | [] => some []
  | d :: rest =>
    match value? room d with
    | none => none
    | some v => (values? room rest).map (v :: ·)
termination_by structural l => l

/-- The fields that a list of written fields denotes, after those in `done`. -/
def fields? (room : Nat) (done : Attributes) : List (Option String × Document) → Option Attributes
  | [] => some done
  | (name, d) :: rest =>
    match name, value? room d with
    | some name, some v => fields? room (Attributes.insert name v done) rest
    | _, _ => none
termination_by structural l => l

end

end Document

/-- How many containers of a text may be nested in one another. -/
def maxDepth : Nat := 127

/-- The value of a JSON text. -/
def parse? (s : String) : Option Json := (Document.parse? s).bind (Document.value? maxDepth)

/-! ## Writing -/

mutual

/-- The tokens of a value. -/
def tokens : Json → List Token
  | .null => [.null]
  | .bool b => [.bool b]
  | .number n => [.number (some n)]
  | .string s => [.string (some s)]
  | .array items => .openArray :: itemTokens items ++ [.closeArray]
  | .object fields => .openObject :: fieldTokens fields ++ [.closeObject]
termination_by structural v => v

/-- The tokens of the items of an array. -/
def itemTokens : List Json → List Token
  | [] => []
  | v :: rest => v.tokens ++ laterItemTokens rest
termination_by structural l => l

/-- The tokens of the items of an array after its first, each behind its comma. -/
def laterItemTokens : List Json → List Token
  | [] => []
  | v :: rest => .comma :: v.tokens ++ laterItemTokens rest
termination_by structural l => l

/-- The tokens of the fields of an object. -/
def fieldTokens : List (String × Json) → List Token
  | [] => []
  | (name, v) :: rest => .string (some name) :: .colon :: v.tokens ++ laterFieldTokens rest
termination_by structural l => l

/-- The tokens of the fields of an object after its first, each behind its comma. -/
def laterFieldTokens : List (String × Json) → List Token
  | [] => []
  | (name, v) :: rest =>
    .comma :: .string (some name) :: .colon :: v.tokens ++ laterFieldTokens rest
termination_by structural l => l

end

/-- The compact text of a value. -/
def text (v : Json) : String := Token.textOf v.tokens

/-- A set of texts as an array. -/
def ofTexts (l : List String) : Json := .array (l.map .string)

/-- A natural number as an integer. -/
def ofNat (n : Nat) : Json := .number (.int n)

end Inventory.Json
