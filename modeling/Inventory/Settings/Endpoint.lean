/-!
# Inventory.Settings.Endpoint

Addresses of stores, and what of them may be shown.
-/

namespace Inventory.Endpoint

/-- What comes before the first `://` and what comes after it. -/
def splitScheme? : List Char → Option (List Char × List Char)
  | [] => none
  | ':' :: '/' :: '/' :: rest => some ([], rest)
  | c :: rest => (splitScheme? rest).map fun (scheme, rest) => (c :: scheme, rest)

/-- What comes after the last `@`, if there is one. -/
def afterLastAt? : List Char → Option (List Char)
  | [] => none
  | c :: rest => afterLastAt? rest <|> if c = '@' then some rest else none

/-- The address without the user and the password in it. -/
def hideCredentials (address : String) : String :=
  match splitScheme? address.toList with
  | none => address
  | some (scheme, rest) =>
    match afterLastAt? rest with
    | none => address
    | some host => String.ofList (scheme ++ "://".toList ++ host)

end Inventory.Endpoint
