import JsonPull.Reader.Reading
import JsonPull.Text.Blank

/-! # Blanks, line breaks and comments

What may stand between tokens. A carriage return and a line feed directly after it are one line
break. -/

namespace JsonPull.Reading

/-- Counts a line break that ends at the cursor. -/
def startLine : Reading Unit := do
  let offset ← cursor
  modify fun s => { s with lines := s.lines.next offset }

/-- Consumes a carriage return with a line feed after it. Answers whether there was one. -/
def takeReturn (retain : Retain) : Reading Bool := do
  advance 1
  let paired := (← byte? 0 retain) == some 0x0A
  if paired then advance 1
  startLine
  return paired

/-- Consumes a line feed. -/
def takeFeed : Reading Unit := do
  advance 1
  startLine

/-- The length of the blank at the cursor, if there is one. -/
def blankLength? (retain : Retain) : Reading (Option Nat) := do
  match ← byte? 0 retain with
  | none => return none
  | some b =>
    if b < 0x80 then return if Text.isBlankByte b then some 1 else none
    else
      match ← charAt? 0 retain with
      | some (c, length) => return if Text.isBlank c then some length else none
      | none => return none

/-- Consumes blanks and answers the byte after them, or nothing at the end. -/
def skipBlanks : Reading (Option UInt8) :=
  repeating (fun (_ : Unit) => do
    match ← byte? 0 .unread with
    | none => return .stop none
    | some 0x0D => do
      let _ ← takeReturn .unread
      return .again ()
    | some 0x0A => do
      takeFeed
      return .again ()
    | some b => do
      match ← blankLength? .unread with
      | some length => do
        advance length
        return .again ()
      | none => return .stop (some b)) ()

/-- Consumes the body of a line comment up to the line break or the end. Answers where it ends. -/
def lineCommentBody : Reading Nat :=
  repeating (fun (_ : Unit) => do
    match ← byte? 0 .all with
    | none => return .stop (← cursor)
    | some 0x0D => return .stop (← cursor)
    | some 0x0A => return .stop (← cursor)
    | some _ => do
      advance 1
      return .again ()) ()

/-- Consumes the body of a block comment with its end mark. Answers where the mark begins. -/
def blockCommentBody : Reading Nat :=
  repeating (fun (_ : Unit) => do
    match ← byte? 0 .all with
    | none => fail (.unexpectedEnd .comment)
    | some 0x2A => do
      advance 1
      if (← byte? 0 .all) == some 0x2F then
        let last ← behind 1
        advance 1
        return .stop last
      else return .again ()
    | some 0x0D => do
      let _ ← takeReturn .all
      return .again ()
    | some 0x0A => do
      takeFeed
      return .again ()
    | some _ => do
      advance 1
      return .again ()) ()

/-- The part of a span that is left when margins are trimmed from its bytes. -/
def trimSpan (span : Span) (bytes : List UInt8) : Span :=
  let lead := (bytes.takeWhile Text.isMarginByte).length
  let first := span.first + lead
  { first, last := first + (Text.trimBoth Text.isMarginByte bytes).length }

/-- Consumes the comment that begins at the cursor, and publishes it if it is to be surfaced. -/
def comment (surface : Bool) : Reading Unit := do
  advance 1
  let mark ← byte? 0 .unread
  match mark with
  | none => fail (.unexpectedEnd .comment)
  | some b =>
    if b != 0x2A && b != 0x2F then unexpected .comment
    else
      advance 1
      let first ← cursor
      let last ← if b == 0x2F then lineCommentBody else blockCommentBody
      if surface then
        let span : Span := { first, last }
        let trimmed := trimSpan span (← bytesOf span)
        modify (State.publishComment (.held (← hold trimmed.first trimmed.last)))

end JsonPull.Reading
