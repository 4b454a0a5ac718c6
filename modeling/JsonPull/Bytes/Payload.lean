import JsonPull.Bytes.Base64
import JsonPull.Bytes.Guid
import JsonPull.Text.Blank
import JsonPull.Text.Utf8

/-! # Bytes written in a text -/

namespace JsonPull.Payload

/-- The bytes that a text writes: those of a GUID if it is one, else those of its Base64, in which
blanks may stand anywhere. -/
def ofText (text : String) : Except Base64.Fault (List UInt8) :=
  match Guid.ofBytes? (Text.toBytes text) with
  | some bytes => .ok bytes
  | none => Base64.decode ((text.toList.filter (!Text.isBlank ·)).flatMap Text.encode)

theorem ofText_empty : ofText "" = .ok [] := rfl

end JsonPull.Payload
