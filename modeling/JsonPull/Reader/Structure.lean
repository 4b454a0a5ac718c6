import JsonPull.Reader.Word
import JsonPull.Reader.Quoted
import JsonPull.Text.Alphanumeric
import JsonPull.Text.Numeric

/-! # Structure

Containers, property names and what stands between values. The phase says which of the parts
below comes next. -/

namespace JsonPull

/-- What the first byte of a value announces. -/
inductive Lead where
  | quote (mark : UInt8)
  | boolean (b : Bool)
  | letterN
  | undefined
  | special (literal : Literal)
  | minus
  | number
  | slash
  | opening (container : Container)
  | closing (container : Container)
  | comma
  | other
deriving DecidableEq, Repr

/-- What a byte announces in the place of a value. -/
def Lead.ofByte (b : UInt8) : Lead :=
  if b == 0x22 || b == 0x27 then quote b
  else if b == 0x74 then boolean true
  else if b == 0x66 then boolean false
  else if b == 0x6E then letterN
  else if b == 0x75 then undefined
  else if b == 0x4E then special .nan
  else if b == 0x49 then special .infinity
  else if b == 0x2D then minus
  else if Number.isDigit b || b == 0x2E then number
  else if b == 0x2F then slash
  else if b == 0x7B then opening .object
  else if b == 0x5B then opening .array
  else if b == 0x7D then closing .object
  else if b == 0x5D then closing .array
  else if b == 0x29 then closing .constructor
  else if b == 0x2C then comma
  else other

namespace Reading

/-- Publishes that there is no token. -/
def nothing : Reading Unit := modify State.publishNothing

/-- Opens a container that has been consumed up to its first part. -/
def openContainer (container : Container) (slot : Slot) : Reading Unit := do
  modify (State.publishOpening container slot)
  match (← read).maxDepth with
  | some limit => if limit < (← get).frames.length then fail (.maxDepthExceeded limit)
  | none => return ()

/-- Closes a container behind its mark. The innermost one is left even if it is another. -/
def closeContainer (container : Container) : Reading Unit := do
  advance 1
  let innermost? := (← get).innermost?
  modify (State.publishClosing container)
  if innermost? = some container then update State.completeValue
  else fail (.mismatchedClose (.closing container) innermost?)

/-- A character of an unquoted name. -/
def isNameChar (c : Char) : Bool :=
  Text.isAlphanumeric c || c == '_' || c == '$'

/-- Consumes an unquoted name up to a blank or a colon. -/
def bareName : Reading Span := do
  let first ← cursor
  repeating (fun (_ : Unit) => do
    match ← charAt? 0 .all with
    | none => fail (.unexpectedEnd .unquotedProperty)
    | some (c, length) => do
      if isNameChar c then
        advance length
        return .again ()
      else if Text.isBlank c || c == ':' then return .stop (← hold first (← cursor))
      else fail (.unexpectedCharacter .unquotedProperty (.char c))) ()

/-- Consumes the name of a property in any of its spellings. -/
def nameText (quote : Option UInt8) : Reading String := do
  match quote with
  | some mark => bodyText (← quoted mark)
  | none =>
    match ← charAt? 0 .all with
    | some (c, _) =>
      if isNameChar c then
        settle
        textOf (← bareName)
      else unexpected .propertyStart
    | none => unexpected .propertyStart

/-- Reads the name of a property with its colon. -/
def property : Reading Unit := do
  let quote := (← byte? 0 .all).filter fun b => b == 0x22 || b == 0x27
  let name := (← read).intern (← nameText quote)
  if (← skipBlanks) == some 0x3A then
    advance 1
    modify fun s => { s.publishName name with quote }
  else unexpected .propertyColon

/-- Consumes the letters of a constructor's name and the blank after it, if there is one. Answers
where the name ends. -/
def constructorName : Reading Nat :=
  repeating (fun (_ : Unit) => do
    match ← charAt? 0 .all with
    | none => fail (.unexpectedEnd .constructor)
    | some (c, length) => do
      if Text.isAlphanumeric c then
        advance length
        return .again ()
      else
        let last ← cursor
        if c == '(' then return .stop last
        else if c == '\r' then
          let _ ← takeReturn .all
          return .stop last
        else if c == '\n' then
          takeFeed
          return .stop last
        else if Text.isBlank c then
          advance length
          return .stop last
        else fail (.unexpectedCharacter .constructor (.char c))) ()

/-- Reads the start of a constructor: `new`, a name and a parenthesis. -/
def constructorStart : Reading Unit := do
  requireWord .new
  let _ ← skipBlanks
  let first ← cursor
  let last ← constructorName
  let name := Text.ofBytes (← bytesOf { first, last })
  if (← skipBlanks) == some 0x28 then
    advance 1
    openContainer .constructor (.owned (.string name))
  else unexpected .constructor

/-- Reads what begins with the letter `n`: `null` or a constructor. -/
def nullOrConstructor : Reading Unit := do
  match ← byte? 1 .all with
  | none => do
    advance 1
    fail (.unexpectedEnd .value)
  | some 0x75 => nullValue
  | some 0x65 => constructorStart
  | some _ => fail (.unexpectedCharacter .value (.char 'n'))

/-- Reads what begins with a byte of no other meaning: a number in digits of another script, which
is never well formed, or nothing that can be a value. -/
def otherValue : Reading Unit := do
  match ← charAt? 0 .all with
  | some (c, _) => if Text.isNumeric c then numberValue .plain else unexpected .value
  | none => unexpected .value

/-- Stops with a token that was read. -/
def found {σ : Type} (token : Reading Unit) : Reading (Turn σ Bool) := do
  token
  return .stop true

/-- Passes a comment, which is a token if comments are surfaced. -/
def passComment (surface : Bool) : Reading (Turn Unit Bool) := do
  comment surface
  return if surface then .stop true else .again ()

/-- Reads a value, or what stands in its place. An elided value leaves its comma for later. -/
def value : Reading Bool :=
  repeating (fun (_ : Unit) => do
    match ← skipBlanks with
    | none => do
      nothing
      return .stop false
    | some b =>
      match Lead.ofByte b with
      | .quote mark => found (stringValue mark .plain)
      | .boolean truth => found (booleanValue truth)
      | .letterN => found nullOrConstructor
      | .undefined => found undefinedValue
      | .special literal => found (specialValue literal .plain)
      | .minus => found (negativeValue .plain (numberValue .plain))
      | .number => found (numberValue .plain)
      | .slash => do passComment (← read).surfaceComments
      | .opening container => found do
        advance 1
        openContainer container .empty
      | .closing .object => found (unexpected .value)
      | .closing container => found (closeContainer container)
      | .comma =>
        found (update fun settings => State.publishScalar settings .undefined .empty true)
      | .other => found otherValue) ()

/-- Reads a property name, or the end of the object. -/
def member : Reading Bool :=
  repeating (fun (_ : Unit) => do
    match ← skipBlanks with
    | none => do
      nothing
      return .stop false
    | some 0x7D => found (closeContainer .object)
    | some 0x2F => do passComment (← read).surfaceComments
    | some _ => found property) ()

/-- Reads on behind a value: the end of a container, or a comma. Answers whether there was a
token; without one only the phase has changed. -/
def separator (surface : Bool) : Reading Bool :=
  repeating (fun (_ : Unit) => do
    match ← skipBlanks with
    | none => do
      modify fun s => { s with phase := .finished }
      return .stop false
    | some b =>
      match Lead.ofByte b with
      | .closing container => found (closeContainer container)
      | .slash => passComment surface
      | .comma => do
        advance 1
        update State.resumeContainer
        return .stop false
      | _ => do
        if (← read).multipleValues && (← get).frames.isEmpty then
          update State.resumeContainer
          return .stop false
        else unexpected .afterValue) ()

/-- Checks that nothing but comments follows the last value. -/
def epilogue (surface : Bool) : Reading Bool :=
  repeating (fun (_ : Unit) => do
    match ← skipBlanks with
    | none => do
      nothing
      return .stop false
    | some 0x2F => passComment surface
    | some _ => unexpected .afterContent) ()

/-- Reads what the phase calls for, where no separator is due. -/
def part : Reading Bool := do
  match (← get).phase with
  | .start | .property => value
  | .opened .object | .within .object => member
  | .opened _ | .within _ => value
  | .finished => epilogue (← read).surfaceComments
  | .closed => return false
  | .postValue => fail (.invariantViolated "a separator was read and is due again")

/-- Reads the next token. Answers whether there was one. -/
def token : Reading Bool := do
  if (← get).phase = .postValue then
    if ← separator (← read).surfaceComments then return true else part
  else part

end Reading

end JsonPull
