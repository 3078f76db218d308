import Byom.Encoding.Base64
import Byom.Encoding.JsonText
import Byom.Page.Token

/-!
# The text of a token

`Encode` and `Decode` with the bytes that pass between them. Up to invalid bytes in the
cursor, a token is the document that it carries.
-/

namespace Byom.Page

open Encoding

/-- `page.Encode`. -/
def encodeText (cursor : Document) : List UInt8 := Base64.encode (JsonText.write cursor)

/-- `page.Decode`, into a cursor with all fields zero. -/
def decodeText {Cursor : Type} (fields : List (Encoding.Field Cursor)) (zero : Cursor)
    (token : List UInt8) : Except Error Cursor :=
  match Base64.decode token with
  | none => .error .invalidToken
  | some raw =>
    match JsonText.parse raw with
    | none => .error .invalidToken
    | some json => decode fields zero (.document json)

theorem decodeText_encodeText {Cursor : Type} (fields : List (Encoding.Field Cursor))
    (zero : Cursor) (cursor : Document) :
    decodeText fields zero (encodeText cursor) = decode fields zero (.document cursor.clean) := by
  simp only [decodeText, encodeText, Base64.decode_encode, JsonText.parse_write]

end Byom.Page
