import Inventory.Key.Parsers

/-!
# Inventory.Scope

Scopes: the ids for which one source answers, and the sources themselves.

Whether two scopes overlap is decided on their descriptions, once and for all ids. A set of ids is
taken to overlap every account, because its ids may belong to any.
-/

namespace Inventory

/-- The ids of a type for which one source answers. -/
inductive Scope where
  /-- All ids. -/
  | everything
  /-- The ids whose key names this provider and account, and this region if there is one. -/
  | account (provider name : String) (region : Option String)
  /-- Exactly these ids. -/
  | ids (members : StringSet)

namespace Scope

/-- Whether an id belongs to a scope; one that is no key belongs to no account. -/
def contains (scope : Scope) (parsers : KeyParsers) (id : String) : Bool :=
  match scope with
  | .everything => true
  | .ids members => members.contains id
  | .account provider name region =>
    match parsers.parse id with
    | .ok key =>
      key.provider == provider && key.account == name && region.all (key.region == ·)
    | .error _ => false

/-- Whether two scopes may claim the same id. -/
def overlaps : Scope → Scope → Bool
  | .everything, _ => true
  | _, .everything => true
  | .ids s, .ids t => s.any t.contains
  | .ids _, _ => true
  | _, .ids _ => true
  | .account p a r, .account q b s =>
    p == q && a == b &&
      match r, s with
      | some r, some s => r == s
      | _, _ => true

/-- The text of a scope. -/
def text : Scope → String
  | .everything => "*"
  | .account provider name (some region) => s!"{provider}/{name}/{region}"
  | .account provider name none => s!"{provider}/{name}"
  | .ids members => s!"{members.size} id(s)"

end Scope

/-- The writer of a result. -/
structure Source where
  /-- The type of the agent that wrote it. -/
  agent : String
  /-- The scope for which it answers. -/
  scope : Scope

/-- The text of a source. -/
def Source.text (s : Source) : String := s!"{s.agent}[{s.scope.text}]"

end Inventory
