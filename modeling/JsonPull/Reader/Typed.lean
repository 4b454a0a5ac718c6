import JsonPull.Reader.Structure

/-! # Typed reads

Reading the next value in a form that the caller asks for. Comments are skipped; `null`, the end
of an array and the end of the input leave no value. -/

namespace JsonPull.Reading

/-- Reads `null` at its first letter, and fails on anything else. -/
def requireNull : Reading Unit := do
  match ← byte? 1 .all with
  | none => do
    advance 1
    fail (.unexpectedEnd .value)
  | some 0x75 => nullValue
  | some _ => do
    let (c, length) := (← charAt? 1 .all).getD (Text.replacement, 1)
    advance (1 + length)
    fail (.unexpectedCharacter .value (.char c))

/-- Reads a number in the form of a request. Texts alone write dates and bytes. -/
def requestedNumber (request : Request) : Reading Unit := do
  match request with
  | .bytes | .dateTime | .dateTimeOffset => unexpectedConsumed .value
  | .boolean => do
    numberValue .plain
    let truth := match (← get).slot with
      | .owned v => v.isTruthy
      | _ => false
    update fun settings => State.publishScalar settings .boolean (.owned (.boolean truth)) false
  | _ => numberValue request

/-- Reads `true` or `false`, as a truth value or as a text. -/
def requestedBoolean (truth : Bool) (request : Request) : Reading Unit := do
  let literal : Literal := if truth then .true else .false
  match request with
  | .boolean => do
    if ← separateWord literal then
      update fun settings => State.publishScalar settings .boolean (.owned (.boolean truth)) true
    else unexpected .value
  | .string => do
    if ← separateWord literal then
      update fun settings => State.publishScalar settings .string (.owned (.string literal.text)) true
    else unexpected .value
  | _ => unexpectedConsumed .value

/-- The text of the current value; nothing counts as the empty text. -/
def currentText : Reading String := do
  match (← get).slot with
  | .held span => textOf span
  | .owned (.string text) => return text
  | _ => return ""

/-- Converts the text that was read to the form of a request. The empty text stands for `null`. -/
def convertText (request : Request) : Reading Unit := do
  match request.conversion? with
  | none => return ()
  | some target =>
    let text ← currentText
    if text.isEmpty then update fun settings => State.publishScalar settings .null .empty false
    else
      match TextNumber.convert? request text with
      | some (kind, v) => update fun settings => State.publishScalar settings kind (.owned v) false
      | none => fail (.ofNumberFault (.unconvertible target text))

/-- Reads the bytes of an array of numbers behind its opening mark. -/
def byteArray : Reading Unit :=
  repeating (fun (bytes : List UInt8) => do
    modify State.clearSlot
    if !(← token) then nothing
    let s ← get
    match s.token with
    | .none => fail (.unexpectedEnd .bytes)
    | .scalar .integer =>
      match s.slot with
      | .owned v =>
        match v.asByte? with
        | some b => return .again (b :: bytes)
        | none => fail (.ofBytesFault .outOfRange)
      | _ => fail (.ofBytesFault .outOfRange)
    | .closing .array => do
      update fun settings =>
        State.publishScalar settings .bytes (.owned (.bytes bytes.reverse)) false
      return .stop ()
    | .comment => return .again bytes
    | other => fail (.unexpectedToken other)) []

/-- An elided value cannot be read in any form. It is counted and its comma stays, so that the
next read goes on behind it; the failure is noticed just behind the comma. -/
def elidedValue : Reading Unit := do
  update fun settings => State.publishScalar settings .undefined .empty true
  let s ← get
  let behind ← past 1
  throw {
    kind := .unexpectedCharacter .value (.char ',')
    path := s.path
    line := s.lines.line
    position := s.lines.position behind }

/-- Reads the end of an array in the place of a value. -/
def endOfArray : Reading Unit := do
  if (← get).phase.inArray then closeContainer .array
  else
    advance 1
    fail (.unexpectedCharacter .value (.char ']'))

/-- Reads a value in the form of a request. -/
def requestedValue (request : Request) : Reading Unit :=
  repeating (fun (_ : Unit) => do
    let stop (reading : Reading Unit) : Reading (Turn Unit Unit) := .stop <$> reading
    match ← skipBlanks with
    | none => stop nothing
    | some b =>
      match Lead.ofByte b with
      | .quote mark => stop do
        stringValue mark request
        convertText request
      | .letterN => stop requireNull
      | .special literal => stop (specialValue literal request)
      | .minus => stop (negativeValue request (requestedNumber request))
      | .number => stop (requestedNumber request)
      | .boolean truth => stop (requestedBoolean truth request)
      | .opening .array =>
        if request = .bytes then stop do
          advance 1
          openContainer .array .empty
          byteArray
        else stop (unexpectedConsumed .value)
      | .slash => do
        comment false
        return .again ()
      | .comma => stop elidedValue
      | .closing .array => stop endOfArray
      | _ => stop (unexpectedConsumed .value)) ()

/-- Reads what the phase calls for in the form of a request, where no separator is due. -/
def requestedPart (request : Request) : Reading Unit := do
  let phase := (← get).phase
  if phase.expectsValue then requestedValue request
  else
    match phase with
    | .finished => do
      let _ ← epilogue false
    | .closed => return ()
    | _ => fail (.unexpectedPhase phase)

/-- Reads the next value in the form of a request. The end of a container is read as well, and
leaves no value. -/
def requested (request : Request) : Reading Unit := do
  if (← get).phase = .postValue then
    if ← separator false then return () else requestedPart request
  else requestedPart request

end JsonPull.Reading
