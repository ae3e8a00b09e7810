import Inventory.Collections

/-!
# Inventory.Settings.CommandLine

The options of a command line.

An option is written `--name value` or `--name=value`. A value on its own does not start with a
dash, unless it is nothing but a dash. The word `--` ends the options, and nothing may come after
it. An option may be repeated only if its values add up.
-/

namespace Inventory.CommandLine

/-- The options that there are, and which of them may be repeated. -/
structure Grammar where
  names : List String
  repeatable : List String

/-- The values given to each option, in order. -/
abbrev Given := StringMap (List String)

/-- What a word says about an option: its name and, after an equals sign, its value. -/
def option? (word : String) : Option (String × Option String) :=
  match word.toList with
  | '-' :: '-' :: body =>
    let name := String.ofList (body.takeWhile (· ≠ '='))
    match body.dropWhile (· ≠ '=') with
    | [] => some (name, none)
    | _ :: value => some (name, some (String.ofList value))
  | _ => none

/-- Whether a word may be the value of the option before it. -/
def isValue (word : String) : Bool := word == "-" || !word.startsWith "-"

/-- Adds a value to an option. -/
def Grammar.add? (g : Grammar) (given : Given) (name value : String) : Option Given :=
  if name ∉ g.names then none
  else if name ∈ given ∧ name ∉ g.repeatable then none
  else some (given.insert name (StringMap.find given name ++ [value]))

/-- Reads the words after those that have given `given`. -/
def Grammar.read? (g : Grammar) (given : Given) : List String → Option Given
  | [] => some given
  | word :: rest =>
    if word = "--" then if rest.isEmpty then some given else none
    else
      match option? word, rest with
      | none, _ => none
      | some (name, some value), rest =>
        (g.add? given name value).bind fun given => g.read? given rest
      | some (_, none), [] => none
      | some (name, none), value :: rest =>
        if isValue value then (g.add? given name value).bind fun given => g.read? given rest
        else none

end Inventory.CommandLine
