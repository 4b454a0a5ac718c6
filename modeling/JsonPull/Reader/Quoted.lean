import JsonPull.DateText
import JsonPull.Bytes.Payload
import JsonPull.Reader.Numeric
import JsonPull.Text.Escape

/-! # Quoted strings

A string without escapes is left where it is in the window. Escapes are decoded on the way, and
half a surrogate pair becomes U+FFFD. A string may turn out to be a date, or to write bytes. -/

namespace JsonPull.Reading

/-- The body of a string: still in the window, or decoded. -/
inductive Body where
  | held (span : Span)
  | decoded (text : String)
deriving DecidableEq, Repr

/-- What is decoded of a body: its bytes up to `start`, the latest first, and whether there were
escapes among them. The rest is still in the window. -/
structure Partial where
  start : Nat
  bytes : List UInt8 := []
  escaped : Bool := false

/-- Takes over the bytes up to an escape, and its characters. The body goes on at `start`. -/
def Partial.pushEscape (p : Partial) (raw : List UInt8) (chars : List Char) (start : Nat) :
    Partial :=
  { start
    bytes := (raw ++ chars.flatMap Text.encode).reverse ++ p.bytes
    escaped := true }

/-- Consumes the four digits of a Unicode escape. -/
def escapeUnit : Reading Nat := do
  match ← bytes? 0 3 .all with
  | none => fail (.unexpectedEnd .unicodeEscape)
  | some digits =>
    match Text.unit? digits with
    | some unit => do
      advance 4
      return unit
    | none => fail (.ofEscapeFault (.badDigits (Text.ofBytes digits)))

/-- Consumes the escape that follows a high surrogate, if one does. The characters so far come with
the latest first. -/
def surrogateTurn : List Char × Nat → Reading (Turn (List Char × Nat) (List Char))
  | (chars, high) => do
    let second ← byte? 1 .all
    let first ← byte? 0 .all
    if first == some 0x5C && second == some 0x75 then
      advance 2
      let unit ← escapeUnit
      if Text.isLowSurrogate unit then return .stop (Text.ofPair high unit :: chars).reverse
      else if Text.isHighSurrogate unit then return .again (Text.replacement :: chars, unit)
      else return .stop (Text.ofUnit unit :: Text.replacement :: chars).reverse
    else return .stop (Text.replacement :: chars).reverse

/-- Decodes the escapes that follow a high surrogate, as long as each is another one. -/
def surrogates (high : Nat) : Reading (List Char) :=
  repeating surrogateTurn ([], high)

/-- Decodes a Unicode escape behind its letter, with those that it forms pairs with. -/
def unicodeEscape : Reading (List Char) := do
  let unit ← escapeUnit
  if Text.isHighSurrogate unit then surrogates unit else return [Text.ofUnit unit]

/-- Consumes the backslash of an escape, in a string that waits for a quote. Answers the letter
behind it and its length. -/
def escapeLetter (quote : UInt8) : Reading (Char × Nat) := do
  advance 1
  match ← charAt? 0 .all with
  | none => fail (.unexpectedEnd (.string quote))
  | some letter => return letter

/-- Decodes an escape at its letter. -/
def escape (letter : Char × Nat) : Reading (List Char) := do
  advance letter.2
  if letter.1 == 'u' then unicodeEscape
  else
    match Text.simpleEscape? letter.1 with
    | some decoded => return [decoded]
    | none => fail (.ofEscapeFault (.unknown letter.1))

/-- Consumes the next part of a string's body, which began at `first`. -/
def bodyTurn (quote : UInt8) (first : Nat) (p : Partial) : Reading (Turn Partial Body) := do
  match ← byte? 0 .all with
  | none => fail (.unexpectedEnd (.string quote))
  | some 0x5C => do
    let last ← cursor
    let letter ← escapeLetter quote
    let raw ← bytesOf { first := p.start, last }
    let chars ← escape letter
    return .again (p.pushEscape raw chars (← cursor))
  | some 0x0D => do
    let _ ← takeReturn .all
    return .again p
  | some 0x0A => do
    takeFeed
    return .again p
  | some b => do
    if b == quote then
      let last ← cursor
      advance 1
      if p.escaped then
        let raw ← bytesOf { first := p.start, last }
        return .stop (.decoded (Text.ofBytes (p.bytes.reverse ++ raw)))
      else return .stop (.held (← hold first last))
    else
      advance 1
      return .again p

/-- Consumes the body of a string and its closing quote. -/
def body (quote : UInt8) : Reading Body := do
  let first ← cursor
  repeating (bodyTurn quote first) { start := first }

/-- The text of a body. -/
def bodyText : Body → Reading String
  | .held span => textOf span
  | .decoded text => return text

/-- Consumes a string at its opening quote. -/
def quoted (quote : UInt8) : Reading Body := do
  advance 1
  settle
  body quote

/-- The date that a text writes, if dates are wanted. -/
def dateOf? (dates : DateHandling) (text : String) : Option Timestamp :=
  match dates with
  | .none => none
  | .dateTime => DateText.ofBytes? false (Text.toBytes text)
  | .dateTimeOffset => DateText.ofBytes? true (Text.toBytes text)

/-- Where the text of a body stays. -/
def Body.slot : Body → Slot
  | .held span => .held span
  | .decoded text => .owned (.string text)

/-- Publishes the bytes that a body writes. -/
def publishBytes (b : Body) : Reading Unit := do
  let text ← bodyText b
  match Payload.ofText text with
  | .ok bytes =>
    update fun settings => State.publishScalar settings .bytes (.owned (.bytes bytes)) false
  | .error fault => fail (.ofBytesFault (.notBase64 text fault))

/-- Publishes a body as a date if it is one and dates are wanted, else as a string. -/
def publishText (dates : DateHandling) (b : Body) : Reading Unit := do
  let date? ← if dates = .none then pure none else dateOf? dates <$> bodyText b
  match date? with
  | some date =>
    update fun settings => State.publishScalar settings .date (.owned (.date date)) false
  | none => update fun settings => State.publishScalar settings .string b.slot false

/-- Reads the string at the cursor in the form of a request, as far as quoted texts have one of
their own. -/
def stringValue (quote : UInt8) (request : Request) : Reading Unit := do
  let b ← quoted quote
  finishValue
  modify fun s => { s with quote := some quote }
  if request = .bytes then publishBytes b
  else publishText (request.dates (← read)) b

end JsonPull.Reading
