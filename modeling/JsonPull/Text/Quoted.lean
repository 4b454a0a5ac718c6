import JsonPull.Text.Utf8
import JsonPull.Text.Visible

/-! # Quoted diagnostic texts

A reader describes itself in one line. Texts appear there between double quotes with what cannot
be seen written as escapes, and raw bytes as the text they encode, with each ill-formed byte as an
escape of its own. The two forms differ within ASCII only. -/

namespace JsonPull.Text

/-- The digits of `n` in base 16, in lower case and without leading zeros. -/
def hexDigits (n : Nat) : String :=
  String.ofList (Nat.toDigits 16 n)

/-- A character between the quotes of a text. -/
def quoteChar (c : Char) : String :=
  if c == '\x00' then "\\0"
  else if c == '\t' then "\\t"
  else if c == '\n' then "\\n"
  else if c == '\r' then "\\r"
  else if c == '"' then "\\\""
  else if c == '\\' then "\\\\"
  else if isVisible c then c.toString
  else "\\u\x7b" ++ hexDigits c.toNat ++ "\x7d"

/-- `text` between double quotes, with escapes for what has no shape of its own. -/
def quote (text : String) : String :=
  "\"" ++ String.join (text.toList.map quoteChar) ++ "\""

/-- Two hexadecimal digits for a byte. -/
def hexByte (b : UInt8) : String :=
  String.ofList [Nat.digitChar (b.toNat / 16), Nat.digitChar (b.toNat % 16)]

/-- A byte of ASCII between the quotes of a byte text. -/
def quoteByte (b : UInt8) : String :=
  if b == 0x00 then "\\0"
  else if b == 0x09 then "\\t"
  else if b == 0x0A then "\\n"
  else if b == 0x0D then "\\r"
  else if b == 0x22 then "\\\""
  else if b == 0x27 then "\\\x27"
  else if b == 0x5C then "\\\\"
  else if 0x20 ≤ b && b < 0x7F then (Char.ofNat b.toNat).toString
  else "\\x" ++ hexByte b

/-- The pieces of the quoted form of bytes, one for each character or ill-formed part. The first
argument counts bytes that are already written. -/
def quotePieces : Nat → List UInt8 → List String
  | _, [] => []
  | n + 1, _ :: rest => quotePieces n rest
  | 0, b :: rest =>
    if b < 0x80 then quoteByte b :: quotePieces 0 rest
    else
      let n := continuationCount b rest
      let piece :=
        match decodeSequence? (b :: rest.take n) with
        | some c => quoteChar c
        | none => String.join ((b :: rest.take n).map fun x => "\\x" ++ hexByte x)
      piece :: quotePieces n rest

/-- `bytes` between double quotes: well-formed characters beyond ASCII as in a text, every other
byte that has no shape of its own as an escape. -/
def quoteBytes (bytes : List UInt8) : String :=
  "\"" ++ String.join (quotePieces 0 bytes) ++ "\""

end JsonPull.Text
