import Inventory.Deflate.Bits

/-!
# Inventory.Deflate.Code

Prefix codes given by the lengths of their words.

The words of one length are consecutive numbers in the order of their symbols, and start where the
words of the next shorter length end. The lengths must use up all words. Only a code that is not
that of the lengths themselves may do with less: with no word at all, or with a single word of one
bit.
-/

namespace Inventory.Deflate

/-- A binary tree with symbols at its leaves. -/
inductive Tree where
  | empty
  | leaf (symbol : Nat)
  | node (zero one : Tree)

namespace Tree

/-- The tree that has the symbol at the end of the path. -/
def single (symbol : Nat) : Bits → Tree
  | [] => leaf symbol
  | false :: path => node (single symbol path) empty
  | true :: path => node empty (single symbol path)

/-- Puts a symbol at the end of a path. -/
def insert (symbol : Nat) : Bits → Tree → Tree
  | false :: path, node zero one => node (insert symbol path zero) one
  | true :: path, node zero one => node zero (insert symbol path one)
  | path, _ => single symbol path

/-- Follows the bits to a symbol. -/
def decode? : Tree → Bits → Option (Nat × Bits)
  | empty, _ => none
  | leaf symbol, bits => some (symbol, bits)
  | node _ _, [] => none
  | node zero one, bit :: rest => if bit then decode? one rest else decode? zero rest

theorem length_le_of_decode? {t : Tree} {bits rest : Bits} {symbol : Nat}
    (h : t.decode? bits = some (symbol, rest)) : rest.length ≤ bits.length := by
  induction t generalizing bits with
  | empty => simp [decode?] at h
  | leaf s => simp only [decode?, Option.some.injEq, Prod.mk.injEq] at h; simp [h.2]
  | node zero one ihz iho =>
    cases bits with
    | nil => simp [decode?] at h
    | cons bit bits =>
      simp only [decode?] at h
      split at h
      · have := iho h; simp only [List.length_cons]; omega
      · have := ihz h; simp only [List.length_cons]; omega

end Tree

/-- A prefix code: the trees of the words that start with a zero and with a one. -/
structure Code where
  zero : Tree := .empty
  one : Tree := .empty

namespace Code

/-- Adds a word, which is not empty. -/
def insert (c : Code) (symbol : Nat) : Bits → Code
  | [] => c
  | false :: path => { c with zero := c.zero.insert symbol path }
  | true :: path => { c with one := c.one.insert symbol path }

/-- Reads a symbol. -/
def decode? (c : Code) : Bits → Option (Nat × Bits)
  | [] => none
  | bit :: rest => if bit then c.one.decode? rest else c.zero.decode? rest

theorem length_lt_of_decode? {c : Code} {bits rest : Bits} {symbol : Nat}
    (h : c.decode? bits = some (symbol, rest)) : rest.length < bits.length := by
  cases bits with
  | nil => simp [decode?] at h
  | cons bit bits =>
    simp only [decode?] at h
    split at h <;>
    · have := Tree.length_le_of_decode? h
      simp only [List.length_cons]; omega

/-- The longest a word may be. -/
def maxLength : Nat := 15

/-- The word of the given length that is the number `n`, its highest bit first. -/
def wordOf (length n : Nat) : Bits := (List.range length).reverse.map n.testBit

/-- The symbols whose words have the given length, in order. -/
def symbolsOfLength (lengths : List Nat) (length : Nat) : List Nat :=
  (lengths.zipIdx.filter fun (l, _) => l = length).map Prod.snd

/-- Adds the words of `length` and longer ones, where `first` is the first word of that length. -/
def addWords (lengths : List Nat) : Nat → Nat → Nat → Code → Code
  | 0, _, _, c => c
  | more + 1, length, first, c =>
    let symbols := symbolsOfLength lengths length
    let c := symbols.zipIdx.foldl
      (fun c (symbol, i) => c.insert symbol (wordOf length (first + i))) c
    addWords lengths more (length + 1) (2 * (first + symbols.length)) c

/-- The share of all words that the lengths use up, in parts of `2 ^ maxLength`. -/
def usage (lengths : List Nat) : Nat :=
  lengths.foldl (fun used l => if l = 0 then used else used + Nat.pow 2 (maxLength - l)) 0

/-- The code with the given lengths of words, where zero means that a symbol has none. -/
def ofLengths? (lengths : List Nat) (mayBeIncomplete : Bool) : Option Code :=
  let words := lengths.filter (· ≠ 0)
  if usage lengths = Nat.pow 2 maxLength ∨ (mayBeIncomplete ∧ (words = [] ∨ words = [1])) then
    some (addWords lengths maxLength 1 0 {})
  else none

end Code

end Inventory.Deflate
