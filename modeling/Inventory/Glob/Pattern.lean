/-!
# Inventory.Glob.Pattern

Glob patterns and how they are written.

Rules:

* `?` stands for one byte, `*` for any bytes, `[...]` for one byte of a class, `{a,b}` for one of
  several patterns, and a backslash takes the next character literally;
* `**` is special next to a slash only: at the start of a branch it stands for any leading
  directories, after a slash for any directories below or between, and elsewhere for `*`;
* a text is read from left to right, and the first fault met is the one reported.
-/

namespace Inventory.Glob

/-- A part of a pattern. -/
inductive Part where
  /-- A character, as its UTF-8 bytes. -/
  | literal (c : Char)
  /-- Any one byte. -/
  | anyByte
  /-- Any bytes. -/
  | anyBytes
  /-- Nothing, a slash, or anything that ends in a slash. -/
  | leading
  /-- A slash and anything after it. -/
  | trailing
  /-- A slash, or anything between two slashes. -/
  | between
  /-- One byte inside the ranges, or outside of them. -/
  | byteClass (negated : Bool) (ranges : List (Char × Char))
  /-- One of several patterns, or nothing if there are none. -/
  | oneOf (branches : List (List Part))

/-- Why a text is no glob. -/
inductive Fault where
  | unclosedClass
  | invalidRange (first last : Char)
  | unopenedGroup
  | unclosedGroup
  | danglingEscape
deriving DecidableEq, Repr

/-- The wording of a fault. -/
def Fault.text : Fault → String
  | unclosedClass => "unclosed character class; missing ']'"
  | invalidRange first last => s!"invalid range; '{first}' > '{last}'"
  | unopenedGroup =>
    "unopened alternate group; missing '\x7b' (maybe escape '\x7d' with '[\x7d]'?)"
  | unclosedGroup =>
    "unclosed alternate group; missing '\x7d' (maybe escape '\x7b' with '[\x7b]'?)"
  | danglingEscape => "dangling '\\'"

/-! ## Patterns under construction -/

/-- A pattern that is being read: the parts of the branch read last, the last one first, and for
each group that is open, innermost first, its finished branches and the parts before it. -/
structure Draft where
  /-- The parts of the current branch, the last one first. -/
  current : List Part := []
  /-- The open groups. -/
  groups : List (List (List Part) × List Part) := []

namespace Draft

/-- Adds a part to the current branch. -/
def push (d : Draft) (p : Part) : Draft := { d with current := p :: d.current }

/-- Opens a group. -/
def openGroup (d : Draft) : Draft := ⟨[], ([], d.current) :: d.groups⟩

/-- Ends a branch of the innermost group; without a group a comma is literal. -/
def comma (d : Draft) : Draft :=
  match d.groups with
  | [] => d.push (.literal ',')
  | (done, before) :: outer => ⟨[], (d.current.reverse :: done, before) :: outer⟩

/-- Whether a branch can match nothing but the empty text because all its parts are empty groups. -/
def isVacuous (branch : List Part) : Bool :=
  branch.all fun
    | .oneOf [] => true
    | _ => false

/-- Closes the innermost group and drops its vacuous branches. -/
def closeGroup (d : Draft) : Except Fault Draft :=
  match d.groups with
  | [] => .error .unopenedGroup
  | (done, before) :: outer =>
    let branches := (d.current.reverse :: done).reverse.filter fun b => !isVacuous b
    .ok ⟨.oneOf branches :: before, outer⟩

/-- The finished pattern. -/
def finish (d : Draft) : Except Fault (List Part) :=
  if d.groups.isEmpty then .ok d.current.reverse else .error .unclosedGroup

/-- Whether two stars that follow `previous` are special although the branch has parts already:
after a slash, or after what looks like the start of a branch. -/
def starsAreSpecial (d : Draft) (previous : Option Char) : Bool :=
  previous == some '/' ||
    (!d.groups.isEmpty && (previous == some ',' || previous == some '{'))

/-- Puts a special pair of stars in the place of the last part, mostly the slash before it; a part
that already reaches as far is kept. -/
def replaceLast (d : Draft) (p : Part) : Draft :=
  match d.current with
  | .leading :: _ => d
  | .trailing :: _ => d
  | _ :: before => { d with current := p :: before }
  | [] => d.push p

/-- Adds two stars that stand between `previous` and `next`. The result says whether `next`, which
is a slash then, belongs to them. -/
def pushStars (d : Draft) (previous next : Option Char) : Draft × Bool :=
  if d.current.isEmpty then
    match next with
    | none => (d.push .leading, false)
    | some '/' => (d.push .leading, true)
    | _ => (d.push .anyBytes, false)
  else if d.starsAreSpecial previous then
    match next with
    | none => (d.replaceLast .trailing, false)
    | some '/' => (d.replaceLast .between, true)
    | some c =>
      if !d.groups.isEmpty && (c == ',' || c == '}') then (d.replaceLast .trailing, false)
      else (d.push .anyBytes, false)
  else (d.push .anyBytes, false)

end Draft

/-! ## Classes under construction -/

/-- A class that is being read. -/
structure ClassDraft where
  /-- Whether the class is negated. -/
  negated : Bool
  /-- The ranges so far, the last one first. -/
  ranges : List (Char × Char) := []
  /-- Whether a dash waits for the end of a range. -/
  inRange : Bool := false

namespace ClassDraft

/-- Adds a character: as the end of the last range after a dash, and on its own otherwise. -/
def push (d : ClassDraft) (c : Char) : Except Fault ClassDraft :=
  match d.inRange, d.ranges with
  | true, (first, _) :: earlier =>
    if c < first then .error (.invalidRange first c)
    else .ok { d with ranges := (first, c) :: earlier, inRange := false }
  | _, _ => .ok { d with ranges := (c, c) :: d.ranges, inRange := false }

/-- Adds a character other than a dash, or a dash, which opens a range unless it stands first or
ends one. -/
def take (d : ClassDraft) (c : Char) : Except Fault ClassDraft :=
  if c = '-' ∧ d.ranges ≠ [] ∧ d.inRange = false then .ok { d with inRange := true } else d.push c

/-- The finished class; a dash at the end is literal. -/
def finish (d : ClassDraft) : Part :=
  .byteClass d.negated (if d.inRange then ('-', '-') :: d.ranges else d.ranges).reverse

end ClassDraft

/-! ## Reading -/

mutual

/-- Reads the rest of a glob after the character `previous`. -/
def readFrom (d : Draft) (previous : Option Char) : List Char → Except Fault (List Part)
  | [] => d.finish
  | '*' :: '*' :: '/' :: rest =>
    let (d', taken) := d.pushStars previous (some '/')
    readFrom (if taken then d' else d'.push (.literal '/')) (some '/') rest
  | '*' :: '*' :: rest => readFrom (d.pushStars previous rest.head?).1 (some '*') rest
  | '*' :: rest => readFrom (d.push .anyBytes) (some '*') rest
  | '?' :: rest => readFrom (d.push .anyByte) (some '?') rest
  | '[' :: '!' :: rest => readClass d { negated := true } rest
  | '[' :: '^' :: rest => readClass d { negated := true } rest
  | '[' :: rest => readClass d { negated := false } rest
  | '{' :: rest => readFrom d.openGroup (some '{') rest
  | '}' :: rest =>
    match d.closeGroup with
    | .ok d => readFrom d (some '}') rest
    | .error e => .error e
  | ',' :: rest => readFrom d.comma (some ',') rest
  | '\\' :: c :: rest => readFrom (d.push (.literal c)) (some c) rest
  | ['\\'] => .error .danglingEscape
  | c :: rest => readFrom (d.push (.literal c)) (some c) rest
termination_by structural s => s

/-- Reads the rest of a class, whose first character is literal even if it is a bracket. -/
def readClass (d : Draft) (k : ClassDraft) : List Char → Except Fault (List Part)
  | [] => .error .unclosedClass
  | c :: rest =>
    if c = ']' ∧ k.ranges ≠ [] then readFrom (d.push k.finish) (some ']') rest
    else
      match k.take c with
      | .ok k => readClass d k rest
      | .error e => .error e
termination_by structural s => s

end

/-- Reads a glob. -/
def parse (glob : String) : Except Fault (List Part) := readFrom {} none glob.toList

end Inventory.Glob
