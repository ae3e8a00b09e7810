import Std.Data.ExtTreeMap
import Std.Data.ExtTreeSet

/-!
# Inventory.Collections

Sets and maps keyed by text, and the cutting of a list into batches.

Whatever order an answer shows is the order of the keys by code point, so both containers are
sorted trees. They are *extensional*: two of them are equal as soon as they hold the same things,
which is what lets a law about the whole cache be an equation between states.
-/

namespace Inventory

/-- A finite set of texts; `toList` gives them by code point. -/
abbrev StringSet := Std.ExtTreeSet String

/-- A finite map from texts; `toList` gives the entries by code point of their keys. -/
abbrev StringMap (α : Type) := Std.ExtTreeMap String α

namespace StringMap

/-- The keys of a map. -/
def keySet {α : Type} (m : StringMap α) : StringSet := .ofList m.keys

/-- The value under a key, or the empty default of its type. -/
def find {α : Type} [EmptyCollection α] (m : StringMap α) (key : String) : α :=
  (m[key]?).getD ∅

@[simp] theorem mem_keySet {α : Type} {m : StringMap α} {key : String} :
    key ∈ keySet m ↔ key ∈ m := by
  simp [keySet]

end StringMap

/-! ## First occurrences -/

/-- The elements of a list without their repetitions, each at its first position. -/
def firstOccurrences (l : List String) : List String := go ∅ l
where
  /-- The first occurrences among those not in `seen`. -/
  go (seen : StringSet) : List String → List String
    | [] => []
    | x :: rest => if x ∈ seen then go seen rest else x :: go (seen.insert x) rest

/-! ## Batches -/

/-- Cuts a list into consecutive batches of at most `limit` elements; a limit of zero counts as
one. -/
def batches {α : Type} (limit : Nat) : List α → List (List α)
  | [] => []
  | x :: rest => (x :: rest.take (limit - 1)) :: batches limit (rest.drop (limit - 1))
termination_by l => l.length
decreasing_by simp only [List.length_drop, List.length_cons]; omega

@[simp] theorem batches_nil {α : Type} (limit : Nat) : batches limit ([] : List α) = [] := by
  rw [batches]

/-- Cutting into batches loses nothing and keeps the order. -/
@[simp] theorem flatten_batches {α : Type} (limit : Nat) (l : List α) :
    (batches limit l).flatten = l := by
  fun_induction batches limit l with
  | case1 => rfl
  | case2 x rest ih => simp [ih]

theorem length_le_of_mem_batches {α : Type} {limit : Nat} {l batch : List α}
    (h : batch ∈ batches limit l) : batch.length ≤ max limit 1 := by
  fun_induction batches limit l with
  | case1 => simp at h
  | case2 x rest ih =>
    rcases List.mem_cons.1 h with rfl | h
    · simp only [List.length_cons, List.length_take]; omega
    · exact ih h

end Inventory
