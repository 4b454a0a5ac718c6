import JsonPull.Lexeme
import JsonPull.Reader.Word

/-! # Numbers

A number is scanned to its end first and converted afterwards. The element is counted in between,
so that after a failed conversion reading goes on behind the number. -/

namespace JsonPull.Reading

/-- Publishes an undefined value in place of the number, and fails. -/
def failNumber {α : Type} (fault : NumberFault) : Reading α := do
  update fun settings => State.publishScalar settings .undefined .empty false
  fail (.ofNumberFault fault)

/-- Consumes the bytes of a number and answers the byte after them. -/
def lexemeBytes : Reading (Option UInt8) :=
  repeating (fun (_ : Unit) => do
    match ← byte? 0 .all with
    | none => return .stop none
    | some b => do
      if Lexeme.isByte b then
        advance 1
        return .again ()
      else return .stop (some b)) ()

/-- A byte other than a blank at which a number may end. -/
def endsLexeme (b : UInt8) : Bool :=
  b == 0x2C || b == 0x7D || b == 0x5D || b == 0x29 || b == 0x2F

/-- Consumes a number and checks what follows it. -/
def lexeme : Reading Unit := do
  match ← lexemeBytes with
  | none => return ()
  | some b =>
    if endsLexeme b then return ()
    else if (← blankLength? .all).isSome then return ()
    else
      let (found, _) ← foundAtCursor
      failNumber (.strayCharacter found)

/-- Counts a whole value at the cursor and waits for what follows it. -/
def finishValue : Reading Unit :=
  update fun settings s => (s.completeValue settings).countElement

/-- Reads the number at the cursor in the form of a request. -/
def numberValue (request : Request) : Reading Unit := do
  settle
  let first ← cursor
  lexeme
  finishValue
  let span ← hold first (← cursor)
  let spelling ← bytesOf span
  match Lexeme.convert (← read) request spelling with
  | .ok none => update fun settings => State.publishScalar settings .string (.held span) false
  | .ok (some value) =>
    update fun settings => State.publishScalar settings (Lexeme.kind value) (.owned value) false
  | .error fault => failNumber fault

/-- Reads a word for a special number. Only a double can hold one, and a text can spell it. -/
def specialValue (literal : Literal) (request : Request) : Reading Unit := do
  requireWord literal
  let doubles := (← read).floats == .double
  if (request == .plain || request == .double) && doubles then
    update fun settings => State.publishScalar settings .float (.owned (.float literal.number)) true
  else if request == .string then
    update fun settings => State.publishScalar settings .string (.owned (.string literal.text)) true
  else fail (.ofNumberFault (.specialValue literal))

/-- Reads what begins with a minus sign. -/
def negativeValue (request : Request) (number : Reading Unit) : Reading Unit := do
  if (← byte? 1 .all) == some 0x49 then specialValue .negativeInfinity request else number

end JsonPull.Reading
