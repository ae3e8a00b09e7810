import Inventory.Digest.Sha256
import Inventory.Error
import Inventory.Gzip
import Inventory.Json.Document

/-!
# Inventory.Blob

Attributes as the byte strings that a store holds.

A blob is the JSON text of the attributes, compressed or not. What is read tells by its first bytes
which of the two it is, so blobs stay readable when the setting is changed.
-/

namespace Inventory.Blob

/-- The JSON text of attributes, as bytes. -/
def content (attributes : Attributes) : Bytes := Bytes.ofText (Json.text (.object attributes))

/-- The digest by which a blob is recognised, whether it is compressed or not. -/
def digest (attributes : Attributes) : Bytes := Sha256.digest (content attributes)

/-- Wraps the JSON text of attributes for the store. -/
def encode (compression : Bool) (content : Bytes) : Bytes :=
  if compression then Gzip.encode content else content

/-- The JSON text in a blob. -/
def content? (blob : Bytes) : Except Error Bytes :=
  if Gzip.looksLike blob then
    match Gzip.decode? blob with
    | some content => .ok content
    | none => .error (.unreadable "corrupt gzip stream")
  else .ok blob

/-- Reads the attributes out of their JSON text. -/
def attributes? (content : Bytes) : Except Error Attributes :=
  match (Bytes.text? content).bind Json.parse? with
  | some (.object fields) => .ok fields
  | _ => .error (.unreadable "expected a JSON object")

/-- Reads the attributes out of a blob. -/
def decode (blob : Bytes) : Except Error Attributes := content? blob >>= attributes?

end Inventory.Blob
