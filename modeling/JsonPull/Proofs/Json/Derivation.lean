import JsonPull.Proofs.Json.Text

/-! # The grammar of JSON

The texts that RFC 8259 derives, whatever they denote. A string may write half a surrogate pair, and
a number may be out of every range. -/

namespace JsonPull.Json

/-- What may stand between the quotes of a string. -/
inductive IsBodyText : List UInt8 → Prop where
  | nil : IsBodyText []
  | raw {c : Char} {bytes : List UInt8} (hcontrol : 0x20 ≤ c.toNat) (hquote : c ≠ '"')
      (hbackslash : c ≠ '\\') (h : IsBodyText bytes) : IsBodyText (String.utf8EncodeChar c ++ bytes)
  | letter {b : UInt8} {c : Char} {bytes : List UInt8} (hletter : (b, c) ∈ escapes)
      (h : IsBodyText bytes) : IsBodyText (0x5C :: b :: bytes)
  | unit {digits bytes : List UInt8} {n : Nat} (hunit : IsUnit digits n) (h : IsBodyText bytes) :
      IsBodyText (0x5C :: 0x75 :: (digits ++ bytes))

/-- The texts of strings. -/
inductive IsStringText : List UInt8 → Prop where
  | mk {body : List UInt8} (h : IsBodyText body) : IsStringText (0x22 :: (body ++ [0x22]))

/-- What the parts of a text are: a value, one or more values, a property, or one or more of them. -/
inductive Shape where
  | value
  | items
  | member
  | members
deriving DecidableEq, Repr

/-- The texts of each shape. Blanks around a part belong to the parts around it. -/
inductive Derives : Shape → List UInt8 → Prop where
  | null : Derives .value [0x6E, 0x75, 0x6C, 0x6C]
  | true : Derives .value [0x74, 0x72, 0x75, 0x65]
  | false : Derives .value [0x66, 0x61, 0x6C, 0x73, 0x65]
  | number {text : List UInt8} (h : IsNumber text) : Derives .value text
  | string {text : List UInt8} (h : IsStringText text) : Derives .value text
  | emptyArray {blank : List UInt8} (hblank : IsBlank blank) :
      Derives .value (0x5B :: (blank ++ [0x5D]))
  | array {inner blank : List UInt8} (h : Derives .items inner) (hblank : IsBlank blank) :
      Derives .value (0x5B :: (inner ++ (blank ++ [0x5D])))
  | emptyObject {blank : List UInt8} (hblank : IsBlank blank) :
      Derives .value (0x7B :: (blank ++ [0x7D]))
  | object {inner blank : List UInt8} (h : Derives .members inner) (hblank : IsBlank blank) :
      Derives .value (0x7B :: (inner ++ (blank ++ [0x7D])))
  | lastItem {blank text : List UInt8} (hblank : IsBlank blank) (h : Derives .value text) :
      Derives .items (blank ++ text)
  | nextItem {blank text blank' inner : List UInt8} (hblank : IsBlank blank)
      (h : Derives .value text) (hblank' : IsBlank blank') (hrest : Derives .items inner) :
      Derives .items (blank ++ (text ++ (blank' ++ 0x2C :: inner)))
  | member {quoted blank blank' text : List UInt8} (hname : IsStringText quoted)
      (hblank : IsBlank blank) (hblank' : IsBlank blank') (h : Derives .value text) :
      Derives .member (quoted ++ (blank ++ 0x3A :: (blank' ++ text)))
  | lastMember {blank text : List UInt8} (hblank : IsBlank blank) (h : Derives .member text) :
      Derives .members (blank ++ text)
  | nextMember {blank text blank' inner : List UInt8} (hblank : IsBlank blank)
      (h : Derives .member text) (hblank' : IsBlank blank') (hrest : Derives .members inner) :
      Derives .members (blank ++ (text ++ (blank' ++ 0x2C :: inner)))

/-- A JSON text is a value with blanks around it. -/
inductive IsJson : List UInt8 → Prop where
  | mk {before text after : List UInt8} (hbefore : IsBlank before) (h : Derives .value text)
      (hafter : IsBlank after) : IsJson (before ++ (text ++ after))

end JsonPull.Json
