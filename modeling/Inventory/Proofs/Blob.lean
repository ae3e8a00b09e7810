import Inventory.Blob
import Inventory.Proofs.Gzip
import Inventory.Proofs.Json.Values

/-!
# Inventory.Proofs.Blob

Attributes are read from their blob, compressed or not.

A blob that is not compressed begins with a brace, so it is never taken for a compressed one
(`content?_encode`), and the text that is found in it is read as the attributes that it was written from
(`attributes?_content`).
-/

namespace Inventory

theorem Bytes.ofText_ofList_cons (c : Char) (l : List Char) :
    Bytes.ofText (String.ofList (c :: l)) =
      String.utf8EncodeChar c ++ Bytes.ofText (String.ofList l) := by
  change (c :: l).utf8Encode.data.toList = _ ++ l.utf8Encode.data.toList
  rw [List.utf8Encode_cons, List.utf8Encode_singleton, ByteArray.data_append, Array.toList_append,
    List.data_toByteArray]

/-- A text is found in its encoding. -/
theorem Bytes.text?_ofText (s : String) : Bytes.text? (Bytes.ofText s) = some s := by
  have hbytes : (⟨(Bytes.ofText s).toArray⟩ : ByteArray) = s.toUTF8 := by
    rw [Bytes.ofText, Array.toArray_toList]
  rw [Bytes.text?, hbytes]
  exact dif_pos s.isValidUTF8

namespace Blob

theorem content_eq_cons (a : Attributes) : ∃ rest, content a = 0x7b :: rest :=
  ⟨_, Bytes.ofText_ofList_cons '\x7b' _⟩

theorem looksLike_content (a : Attributes) : Gzip.looksLike (content a) = false := by
  obtain ⟨rest, hcontent⟩ := content_eq_cons a
  rw [hcontent]
  cases rest <;> rfl

/-- What is wrapped for the store is found in it. -/
theorem content?_encode (compression : Bool) (a : Attributes) :
    content? (encode compression (content a)) = .ok (content a) := by
  unfold content? encode
  cases compression with
  | true =>
      rw [if_pos rfl, if_pos (Gzip.looksLike_encode _), Gzip.decode?_encode]
  | false =>
      rw [if_neg Bool.false_ne_true, looksLike_content, if_neg Bool.false_ne_true]

theorem looksLike_encode (compression : Bool) (a : Attributes) :
    Gzip.looksLike (encode compression (content a)) = compression := by
  cases compression with
  | true => exact Gzip.looksLike_encode _
  | false => exact looksLike_content a

theorem attributes?_content {a : Attributes} (h : (Json.object a).Fits Json.maxDepth) :
    attributes? (content a) = .ok a := by
  rw [attributes?, content, Bytes.text?_ofText, Option.bind_some, h.parse?_text]

/-- Attributes whose numbers are integers are read from their blob, in order, whether it is compressed or
not, and whether it is tells the blob itself: no setting is needed to read it. -/
theorem decode_encode {a : Attributes} (h : (Json.object a).Fits Json.maxDepth) (compression : Bool) :
    Gzip.looksLike (encode compression (content a)) = compression ∧
      decode (encode compression (content a)) = .ok a := by
  refine ⟨looksLike_encode compression a, ?_⟩
  rw [decode, content?_encode]
  exact attributes?_content h

/-- Attributes with escaped characters, the first and the last integer, and values in one another. -/
def limits : Attributes :=
  [("path\n", .string "\"\\\t\x01é"), ("ends", .array [.number (.int (-9223372036854775808)),
    .number (.int 18446744073709551615), .object [("", .null), ("a", .array [])]]), ("a", .bool true)]

theorem fits_limits : (Json.object limits).Fits Json.maxDepth := by
  have hinner : (Json.object [("", .null), ("a", .array [])]).Fits 125 :=
    .object (by decide) (List.forall_mem_cons.2 ⟨.null, List.forall_mem_singleton.2 (.array nofun)⟩)
  have hends : (Json.array [.number (.int (-9223372036854775808)),
      .number (.int 18446744073709551615), .object [("", .null), ("a", .array [])]]).Fits 126 :=
    .array (List.forall_mem_cons.2 ⟨.integer (by decide), List.forall_mem_cons.2
      ⟨.integer (by decide), List.forall_mem_singleton.2 hinner⟩⟩)
  exact .object (by decide) (List.forall_mem_cons.2 ⟨.string, List.forall_mem_cons.2
    ⟨hends, List.forall_mem_singleton.2 .bool⟩⟩)

theorem decode_encode_limits : (Json.object limits).Fits Json.maxDepth ∧
    decode (encode true (content limits)) = .ok limits ∧
    decode (encode false (content limits)) = .ok limits :=
  ⟨fits_limits, (decode_encode fits_limits true).2, (decode_encode fits_limits false).2⟩

end Blob

end Inventory
