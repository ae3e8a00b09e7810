import Inventory.Decimal.Numeral

/-!
# Inventory.Json.Value

JSON values and the attribute maps of cached entities.

An object keeps the order in which its names were first written: writing a name again replaces the
value and keeps the place, and removing a name keeps the order of the rest. No object that the
library builds holds a name twice.
-/

namespace Inventory

/-- A JSON value; the fields of an object are in order. -/
inductive Json where
  /-- The value `null`. -/
  | null
  /-- A truth value. -/
  | bool (b : Bool)
  /-- A number. -/
  | number (n : Number)
  /-- A text. -/
  | string (s : String)
  /-- A list of values. -/
  | array (items : List Json)
  /-- Named values, in order. -/
  | object (fields : List (String × Json))

/-- The attributes of a cached entity, in order. -/
abbrev Attributes := List (String × Json)

namespace Attributes

/-- The value under a name. -/
def get? : Attributes → String → Option Json
  | [], _ => none
  | (n, v) :: rest, name => if n = name then some v else get? rest name

/-- Writes a value under a name: in its place if the name is there, at the end otherwise. -/
def insert (name : String) (value : Json) : Attributes → Attributes
  | [] => [(name, value)]
  | (n, v) :: rest => if n = name then (name, value) :: rest else (n, v) :: insert name value rest

/-- Removes a name. -/
def erase (name : String) (fields : Attributes) : Attributes :=
  fields.filter fun field => field.1 ≠ name

/-- The names, in order. -/
def names (fields : Attributes) : List String := fields.map Prod.fst

theorem get?_insert (name other : String) (value : Json) (fields : Attributes) :
    get? (insert name value fields) other =
      if name = other then some value else get? fields other := by
  induction fields with
  | nil => simp [insert, get?]
  | cons field rest ih => by_cases hn : field.1 = name <;> grind [insert, get?]

/-- Writing a name that is there changes no position, and a new name goes to the end. -/
theorem names_insert (name : String) (value : Json) (fields : Attributes) :
    names (insert name value fields) =
      if name ∈ names fields then names fields else names fields ++ [name] := by
  induction fields with
  | nil => simp [insert, names]
  | cons field rest ih => by_cases hn : field.1 = name <;> grind [insert, names]

end Attributes

namespace Json

/-- The value under a name, if this is an object that has it. -/
def get? (value : Json) (name : String) : Option Json :=
  match value with
  | .object fields => Attributes.get? fields name
  | _ => none

/-- The text, if this is one. -/
def string? : Json → Option String
  | .string s => some s
  | _ => none

/-- The truth value, if this is one. -/
def bool? : Json → Option Bool
  | .bool b => some b
  | _ => none

/-- The integer, if this is one. -/
def int? : Json → Option Int
  | .number (.int n) => some n
  | _ => none

/-- The items, if this is an array. -/
def array? : Json → Option (List Json)
  | .array items => some items
  | _ => none

/-- The fields, if this is an object. -/
def object? : Json → Option Attributes
  | .object fields => some fields
  | _ => none

end Json

end Inventory
