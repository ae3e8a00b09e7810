import Inventory.Collections
import Inventory.Key.Basic

/-!
# Inventory.Key.Parsers

Parsers of keys by provider. A key is read by the parser of the provider that it names, as written,
and by the parser of all providers if that provider has none of its own. The parser of a provider may be any
(`KeyReader`); the one for all providers reads the common layout.
-/

namespace Inventory

/-- A parser for the keys of a provider, whatever it reads and for whatever reason it refuses a text. -/
structure KeyReader where
  /-- The provider, as its keys name it. -/
  provider : String
  /-- Reads a key. -/
  parse : String → Except Error Key

/-- The parser of the common layout as the parser of a provider. -/
def KeyParser.toReader (p : KeyParser) : KeyReader := ⟨p.provider, p.parse⟩

instance : Coe KeyParser KeyReader := ⟨KeyParser.toReader⟩

/-- Parsers by the provider they are for; of two for one provider the later one counts. -/
structure KeyParsers where
  /-- The parsers by provider. -/
  byProvider : StringMap KeyReader := ∅

namespace KeyParsers

/-- Adds a parser. -/
def register (ps : KeyParsers) (p : KeyReader) : KeyParsers := ⟨ps.byProvider.insert p.provider p⟩

/-- The parsers of the common layout for a list of providers. -/
def ofProviders (providers : List String) : KeyParsers :=
  providers.foldl (fun ps provider => ps.register (KeyParser.mk provider)) {}

/-- The parser for a provider. -/
def parserFor (ps : KeyParsers) (provider : String) : KeyReader :=
  ps.byProvider.getD provider KeyParser.any

/-- Reads a key. -/
def parse (ps : KeyParsers) (s : String) : Except Error Key :=
  match Key.providerOf? s with
  | none => .error (.malformedKey s .missingProvider)
  | some provider => (ps.parserFor provider).parse s

end KeyParsers

end Inventory
