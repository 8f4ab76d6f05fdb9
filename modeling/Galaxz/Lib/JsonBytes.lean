import Galaxz.Lib.JsonWriter

/-!
# JSON in bytes

Encoding a text in UTF-8, and `json.loads` on bytes, which finds out the encoding first. Bytes that are no strict
UTF-8 are left to a parameter: they are in UTF-16 or UTF-32, start with a mark, or hold a lone surrogate.
-/

namespace Galaxz

/-- `text.encode("utf-8")`. -/
def encodeUtf8 (s : CodeString) : Except PyError (List UInt8) :=
  if s.IsText then .ok (s.chars.flatMap String.utf8EncodeChar)
  else .error (.valueError "'utf-8' codec can't encode: surrogates not allowed")

/-- `data.decode("utf-8")`. -/
def decodeUtf8 (data : List UInt8) : Option (List Char) := (String.fromUTF8? data.toByteArray).map String.toList

/-- The encodings of `json.detect_encoding`. -/
inductive JsonCodec where
  | utf8
  | utf8Sig
  | utf16
  | utf16be
  | utf16le
  | utf32
  | utf32be
  | utf32le
deriving DecidableEq

/-- The encoding by the zeros among the first bytes. -/
def codecOfZeros : List UInt8 → JsonCodec
  | [a, b] => if a = 0 then .utf16be else if b = 0 then .utf16le else .utf8
  | a :: b :: c :: d :: _ =>
    if a = 0 then (if b ≠ 0 then .utf16be else .utf32be)
    else if b = 0 then (if c ≠ 0 ∨ d ≠ 0 then .utf16le else .utf32le)
    else .utf8
  | _ => .utf8

/-- `json.detect_encoding(data)`. -/
def detectEncoding (data : List UInt8) : JsonCodec :=
  if [0, 0, 0xfe, 0xff] <+: data ∨ [0xff, 0xfe, 0, 0] <+: data then .utf32
  else if [0xfe, 0xff] <+: data ∨ [0xff, 0xfe] <+: data then .utf16
  else if [0xef, 0xbb, 0xbf] <+: data then .utf8Sig
  else codecOfZeros data

/-- `json.loads(data)`: how a text is read, and how bytes that are no strict UTF-8 are. -/
def loadsBytes (loads : List Char → Except PyError JsonValue) (other : JsonCodec → List UInt8 → Except PyError JsonValue)
    (data : List UInt8) : Except PyError JsonValue :=
  match detectEncoding data, decodeUtf8 data with
  | .utf8, some text => loads text
  | codec, _ => other codec data

theorem decodeUtf8_encode (cs : List Char) : decodeUtf8 (cs.flatMap String.utf8EncodeChar) = some cs := by
  have hvalid : (cs.flatMap String.utf8EncodeChar).toByteArray.IsValidUTF8 := .intro cs rfl
  have hstring : String.fromUTF8 (cs.flatMap String.utf8EncodeChar).toByteArray hvalid = String.ofList cs :=
    String.toByteArray_inj.mp (String.toByteArray_ofList).symm
  unfold decodeUtf8 String.fromUTF8?
  rw [dif_pos hvalid, hstring, Option.map_some, String.toList_ofList]

/-- Text that starts with two ASCII characters is taken for UTF-8. -/
theorem detectEncoding_ascii {a b : UInt8} (ha : 0 < a) (ha' : a < 0x80) (hb : 0 < b) (hb' : b < 0x80)
    (data : List UInt8) : detectEncoding (a :: b :: data) = .utf8 := by
  have hmark : ∀ x : UInt8, 0x80 ≤ x → x ≠ a := by
    rintro x hx rfl
    exact UInt8.not_lt.mpr hx ha'
  have hza : a ≠ 0 := by
    rintro rfl
    exact absurd ha (by decide)
  have hzb : b ≠ 0 := by
    rintro rfl
    exact absurd hb (by decide)
  unfold detectEncoding
  rw [if_neg, if_neg, if_neg]
  · unfold codecOfZeros
    split
    · next heq =>
      cases heq
      rw [if_neg hza, if_neg hzb]
    · next heq =>
      cases heq
      rw [if_neg hza, if_neg hzb]
    · rfl
  · exact fun h => hmark 0xef (by decide) (List.cons_prefix_cons.mp h).1
  · rintro (h | h)
    · exact hmark 0xfe (by decide) (List.cons_prefix_cons.mp h).1
    · exact hmark 0xff (by decide) (List.cons_prefix_cons.mp h).1
  · rintro (h | h)
    · exact hza (List.cons_prefix_cons.mp h).1.symm
    · exact hmark 0xff (by decide) (List.cons_prefix_cons.mp h).1

/-- The text of a `dict` is read from its bytes. -/
theorem loadsBytes_object {loads : List Char → Except PyError JsonValue}
    {other : JsonCodec → List UInt8 → Except PyError JsonValue} {c : Char} (hc : c = '"' ∨ c = '\x7d') (cs : List Char) :
    loadsBytes loads other (('\x7b' :: c :: cs).flatMap String.utf8EncodeChar) = loads ('\x7b' :: c :: cs) := by
  have hcodec : detectEncoding (('\x7b' :: c :: cs).flatMap String.utf8EncodeChar) = .utf8 := by
    rw [List.flatMap_cons, List.flatMap_cons]
    rcases hc with rfl | rfl
    · exact detectEncoding_ascii (by decide) (by decide) (by decide) (by decide) _
    · exact detectEncoding_ascii (by decide) (by decide) (by decide) (by decide) _
  unfold loadsBytes
  rw [hcodec, decodeUtf8_encode]

end Galaxz
