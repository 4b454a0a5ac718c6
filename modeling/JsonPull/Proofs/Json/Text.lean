import Mathlib
import JsonPull.Token
import JsonPull.Value

/-! # JSON texts

The documents of RFC 8259 and their texts. A document has many texts, which differ in the blanks
between tokens, in the escapes of strings and in the spelling of numbers. -/

namespace JsonPull

/-- A JSON document. Integers of 64 bits are kept apart from all other numbers. -/
inductive Json where
  | null
  | boolean (b : Bool)
  | integer (n : Int)
  | real (x : Number.Double)
  | string (text : String)
  | array (items : List Json)
  | object (members : List (String × Json))

namespace Json

/-! ## Documents as tokens -/

mutual

/-- The tokens of a document, each with its value. -/
def tokens : Json → List (Token × Option Value)
  | null => [(.scalar .null, none)]
  | boolean b => [(.scalar .boolean, some (.boolean b))]
  | integer n => [(.scalar .integer, some (.integer n))]
  | real x => [(.scalar .float, some (.float x))]
  | string text => [(.scalar .string, some (.string text))]
  | array items => (.opening .array, none) :: itemTokens items ++ [(.closing .array, none)]
  | object members => (.opening .object, none) :: memberTokens members ++ [(.closing .object, none)]

def itemTokens : List Json → List (Token × Option Value)
  | [] => []
  | item :: items => item.tokens ++ itemTokens items

def memberTokens : List (String × Json) → List (Token × Option Value)
  | [] => []
  | (name, item) :: members =>
    (.propertyName, some (.string name)) :: item.tokens ++ memberTokens members

end

mutual

/-- How deep the containers of a document are nested. -/
def nesting : Json → Nat
  | array items => itemNesting items + 1
  | object members => memberNesting members + 1
  | _ => 0

def itemNesting : List Json → Nat
  | [] => 0
  | item :: items => max item.nesting (itemNesting items)

def memberNesting : List (String × Json) → Nat
  | [] => 0
  | (_, item) :: members => max item.nesting (memberNesting members)

end

/-! ## Numbers -/

/-- Space, tab, line feed and carriage return. -/
def IsBlank (bytes : List UInt8) : Prop :=
  ∀ b ∈ bytes, b = 0x20 ∨ b = 0x09 ∨ b = 0x0A ∨ b = 0x0D

/-- One or more decimal digits. -/
def IsDigits (bytes : List UInt8) : Prop :=
  bytes ≠ [] ∧ ∀ b ∈ bytes, 0x30 ≤ b ∧ b ≤ 0x39

/-- Digits of which the first is no zero, unless it is the only one. -/
def IsWhole (bytes : List UInt8) : Prop :=
  IsDigits bytes ∧ (bytes.head? = some 0x30 → bytes = [0x30])

/-- The number that decimal digits write. -/
def ofDigits (bytes : List UInt8) : Nat :=
  bytes.foldl (fun n b => 10 * n + (b.toNat - 0x30)) 0

/-- The texts of an integer. Zero has one with a minus sign. -/
inductive IsInteger : List UInt8 → Int → Prop where
  | unsigned {whole : List UInt8} (h : IsWhole whole) : IsInteger whole (ofDigits whole)
  | negative {whole : List UInt8} (h : IsWhole whole) :
      IsInteger (0x2D :: whole) (-(ofDigits whole : Int))

/-- Nothing, or a point and digits. -/
inductive IsFraction : List UInt8 → Prop where
  | none : IsFraction []
  | point {digits : List UInt8} (h : IsDigits digits) : IsFraction (0x2E :: digits)

/-- Nothing, or the letter `e` of either case and digits with a sign or none. -/
inductive IsExponent : List UInt8 → Prop where
  | none : IsExponent []
  | power {mark : UInt8} {sign digits : List UInt8} (hmark : mark = 0x65 ∨ mark = 0x45)
      (hsign : sign = [] ∨ sign = [0x2B] ∨ sign = [0x2D]) (h : IsDigits digits) :
      IsExponent (mark :: (sign ++ digits))

/-- The texts of numbers. -/
inductive IsNumber : List UInt8 → Prop where
  | mk {minus whole fraction exponent : List UInt8} (hminus : minus = [] ∨ minus = [0x2D])
      (hwhole : IsWhole whole) (hfraction : IsFraction fraction) (hexponent : IsExponent exponent) :
      IsNumber (minus ++ (whole ++ (fraction ++ exponent)))

/-- An integer of 64 bits. -/
def IsInt64 (n : Int) : Prop :=
  -9223372036854775808 ≤ n ∧ n ≤ 9223372036854775807

/-- The texts of the numbers that are no integers of 64 bits, each with the number of double
precision that it denotes. -/
structure IsReal (text : List UInt8) (x : Number.Double) : Prop where
  number : IsNumber text
  other : ∀ n, IsInteger text n → ¬ IsInt64 n
  denotes : Number.Double.ofBytes? text = some x

/-! ## Strings -/

/-- A hexadecimal digit of either case. -/
def IsHex (b : UInt8) (n : Nat) : Prop :=
  (n ≤ 9 ∧ b.toNat = 0x30 + n) ∨ (10 ≤ n ∧ n ≤ 15 ∧ b.toNat = 0x61 + (n - 10)) ∨
    (10 ≤ n ∧ n ≤ 15 ∧ b.toNat = 0x41 + (n - 10))

/-- The four digits of a unit of UTF-16. -/
inductive IsUnit : List UInt8 → Nat → Prop where
  | mk {b₃ b₂ b₁ b₀ : UInt8} {n₃ n₂ n₁ n₀ : Nat} (h₃ : IsHex b₃ n₃) (h₂ : IsHex b₂ n₂)
      (h₁ : IsHex b₁ n₁) (h₀ : IsHex b₀ n₀) :
      IsUnit [b₃, b₂, b₁, b₀] (0x1000 * n₃ + 0x100 * n₂ + 0x10 * n₁ + n₀)

/-- The letters behind a backslash, each with the character that it stands for. -/
def escapes : List (UInt8 × Char) :=
  [(0x22, '"'), (0x5C, '\\'), (0x2F, '/'), (0x62, '\x08'), (0x66, '\x0c'), (0x6E, '\n'),
    (0x72, '\r'), (0x74, '\t')]

/-- What may stand between the quotes of a string, and the characters that it writes. A character
may stand for itself or be escaped, as one unit or as a surrogate pair. -/
inductive IsBody : List UInt8 → List Char → Prop where
  | nil : IsBody [] []
  | raw {c : Char} {bytes : List UInt8} {chars : List Char} (hcontrol : 0x20 ≤ c.toNat)
      (hquote : c ≠ '"') (hbackslash : c ≠ '\\') (h : IsBody bytes chars) :
      IsBody (String.utf8EncodeChar c ++ bytes) (c :: chars)
  | letter {b : UInt8} {c : Char} {bytes : List UInt8} {chars : List Char}
      (hletter : (b, c) ∈ escapes) (h : IsBody bytes chars) :
      IsBody (0x5C :: b :: bytes) (c :: chars)
  | unit {c : Char} {digits bytes : List UInt8} {chars : List Char} (hunit : IsUnit digits c.toNat)
      (h : IsBody bytes chars) : IsBody (0x5C :: 0x75 :: (digits ++ bytes)) (c :: chars)
  | pair {c : Char} {high low : Nat} {digits digits' bytes : List UInt8} {chars : List Char}
      (hhigh : 0xD800 ≤ high ∧ high ≤ 0xDBFF) (hlow : 0xDC00 ≤ low ∧ low ≤ 0xDFFF)
      (hpair : c.toNat = 0x10000 + (high - 0xD800) * 0x400 + (low - 0xDC00))
      (hunit : IsUnit digits high) (hunit' : IsUnit digits' low) (h : IsBody bytes chars) :
      IsBody (0x5C :: 0x75 :: (digits ++ 0x5C :: 0x75 :: (digits' ++ bytes))) (c :: chars)

/-- The texts of a string. -/
inductive IsString : List UInt8 → String → Prop where
  | mk {body : List UInt8} {chars : List Char} (h : IsBody body chars) :
      IsString (0x22 :: (body ++ [0x22])) (String.ofList chars)

/-! ## Documents -/

/-- A part of a document: a value, one or more values, a property, or one or more of them. -/
inductive Piece where
  | value (doc : Json)
  | items (docs : List Json)
  | member (name : String) (doc : Json)
  | members (ms : List (String × Json))

/-- The texts of a part of a document. Blanks around a part belong to the parts around it. -/
inductive Spells : Piece → List UInt8 → Prop where
  | null : Spells (.value null) [0x6E, 0x75, 0x6C, 0x6C]
  | true : Spells (.value (boolean true)) [0x74, 0x72, 0x75, 0x65]
  | false : Spells (.value (boolean false)) [0x66, 0x61, 0x6C, 0x73, 0x65]
  | integer {text : List UInt8} {n : Int} (h : IsInteger text n) (hn : IsInt64 n) :
      Spells (.value (integer n)) text
  | real {text : List UInt8} {x : Number.Double} (h : IsReal text x) : Spells (.value (real x)) text
  | string {text : List UInt8} {s : String} (h : IsString text s) : Spells (.value (string s)) text
  | emptyArray {blank : List UInt8} (hblank : IsBlank blank) :
      Spells (.value (array [])) (0x5B :: (blank ++ [0x5D]))
  | array {items : List Json} {inner blank : List UInt8} (h : Spells (.items items) inner)
      (hblank : IsBlank blank) : Spells (.value (array items)) (0x5B :: (inner ++ (blank ++ [0x5D])))
  | emptyObject {blank : List UInt8} (hblank : IsBlank blank) :
      Spells (.value (object [])) (0x7B :: (blank ++ [0x7D]))
  | object {ms : List (String × Json)} {inner blank : List UInt8} (h : Spells (.members ms) inner)
      (hblank : IsBlank blank) : Spells (.value (object ms)) (0x7B :: (inner ++ (blank ++ [0x7D])))
  | lastItem {item : Json} {blank text : List UInt8} (hblank : IsBlank blank)
      (h : Spells (.value item) text) : Spells (.items [item]) (blank ++ text)
  | nextItem {item : Json} {items : List Json} {blank text blank' inner : List UInt8}
      (hblank : IsBlank blank) (h : Spells (.value item) text) (hblank' : IsBlank blank')
      (hrest : Spells (.items items) inner) :
      Spells (.items (item :: items)) (blank ++ (text ++ (blank' ++ 0x2C :: inner)))
  | member {name : String} {item : Json} {quoted blank blank' text : List UInt8}
      (hname : IsString quoted name) (hblank : IsBlank blank) (hblank' : IsBlank blank')
      (h : Spells (.value item) text) :
      Spells (.member name item) (quoted ++ (blank ++ 0x3A :: (blank' ++ text)))
  | lastMember {name : String} {item : Json} {blank text : List UInt8} (hblank : IsBlank blank)
      (h : Spells (.member name item) text) : Spells (.members [(name, item)]) (blank ++ text)
  | nextMember {name : String} {item : Json} {ms : List (String × Json)}
      {blank text blank' inner : List UInt8} (hblank : IsBlank blank)
      (h : Spells (.member name item) text) (hblank' : IsBlank blank')
      (hrest : Spells (.members ms) inner) :
      Spells (.members ((name, item) :: ms)) (blank ++ (text ++ (blank' ++ 0x2C :: inner)))

/-- The texts of a whole document. -/
inductive IsText : List UInt8 → Json → Prop where
  | mk {doc : Json} {before text after : List UInt8} (hbefore : IsBlank before)
      (h : Spells (.value doc) text) (hafter : IsBlank after) :
      IsText (before ++ (text ++ after)) doc

end Json

end JsonPull
