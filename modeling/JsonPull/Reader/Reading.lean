import JsonPull.Error
import JsonPull.Reader.State
import JsonPull.Stream.Scan
import JsonPull.Text.Utf8

/-! # Reading

A reading asks questions about the stream, changes the state of the reader, and may fail. The
state stays as it was at the failure, so that the next call goes on from there. -/

namespace JsonPull

/-- A program of a reader. -/
abbrev Reading := ReaderT Settings (ExceptT ReadError (StateT State Scan))

/-- One turn of a repetition: go on with a new intermediate result, or stop with the result. -/
inductive Turn (σ α : Type) where
  | again (next : σ)
  | stop (result : α)

namespace Reading

/-- Asks about the stream. -/
def ask (q : Query) : Reading q.Answer :=
  liftM (Scan.query q)

/-- The offset of the cursor. -/
def cursor : Reading Nat := ask .cursor

/-- The offset so many bytes behind the cursor, which stays where it is. -/
def past (count : Nat) : Reading Nat := ask (.past count)

/-- The offset so many bytes before the cursor. -/
def behind (count : Nat) : Reading Nat := ask (.behind count)

/-- Consumes `count` bytes. -/
def advance (count : Nat) : Reading Unit := ask (.advance count)

/-- Prepares the window for a token with a long body. -/
def settle : Reading Unit := ask .settle

/-- Fails at the cursor. -/
def fail {α : Type} (kind : ErrorKind) : Reading α := do
  let offset ← cursor
  let s ← get
  throw { kind, path := s.path, line := s.lines.line, position := s.lines.position offset }

/-- The byte `ahead` of the cursor, or nothing behind the end of the stream. -/
def byte? (ahead : Nat) (retain : Retain) : Reading (Option UInt8) := do
  match ← ask (.byte ahead retain) with
  | .ok b => return b
  | .error .cancelled => fail .cancelled
  | .error (.io message) => fail (.io message)

/-- Bytes that the window must still hold. -/
def stillHeld : Option (List UInt8) → Reading (List UInt8)
  | some bytes => return bytes
  | none => fail (.invariantViolated "a part of the stream was used after the window left it")

/-- The bytes of a part of the stream that must still be held. -/
def bytesOf (span : Span) : Reading (List UInt8) := do
  stillHeld (← ask (.slice span.first span.last))

/-- Refers to a part of the stream. -/
def hold (first last : Nat) : Reading Span := do
  ask (.hold first last)
  return { first, last }

/-- The text of a part of the stream that was referred to and must still be held. -/
def textOf (span : Span) : Reading String :=
  return Text.ofBytes (← stillHeld (← ask (.resolve span.first span.last)))

/-- Repeats turns, at most so many. -/
def repeatAtMost {σ α : Type} (turn : σ → Reading (Turn σ α)) : Nat → σ → Reading α
  | 0, _ => fail (.invariantViolated "a repetition went on without consuming input")
  | n + 1, s => do
    match ← turn s with
    | .again next => repeatAtMost turn n next
    | .stop result => return result

/-- Repeats turns of which all but the last consume a byte. -/
def repeating {σ α : Type} (turn : σ → Reading (Turn σ α)) (s : σ) : Reading α := do
  let budget ← ask .budget
  repeatAtMost turn (budget + 1) s

/-- The next `count + 1` bytes from `ahead` of the cursor on, or nothing if the stream ends
before. Only the last of them is asked for. -/
def bytes? (ahead count : Nat) (retain : Retain) : Reading (Option (List UInt8)) := do
  match ← byte? (ahead + count) retain with
  | some _ => do
    let first := (← cursor) + ahead
    return some (← bytesOf { first, last := first + (count + 1) })
  | none => return none

/-- The character `ahead` of the cursor and its length in bytes, or nothing behind the end. A byte
that begins no well-formed sequence is a character by itself, U+FFFD. -/
def charAt? (ahead : Nat) (retain : Retain) : Reading (Option (Char × Nat)) := do
  match ← byte? ahead retain with
  | none => return none
  | some lead =>
    if lead < 0x80 then return some (Char.ofNat lead.toNat, 1)
    else
      let length := Text.sequenceLength lead
      if length = 1 then return some (Text.replacement, 1)
      else
        match ← bytes? ahead (length - 1) retain with
        | none => return some (Text.replacement, 1)
        | some sequence =>
          match Text.decodeSequence? sequence with
          | some c => return some (c, length)
          | none => return some (Text.replacement, 1)

/-- The character at the cursor for an error message, and its length in bytes. -/
def foundAtCursor : Reading (Found × Nat) := do
  match ← charAt? 0 .all with
  | some (c, length) => return (.char c, length)
  | none => return (.endOfInput, 0)

/-- Fails because of the character at the cursor. -/
def unexpected {α : Type} (site : CharSite) : Reading α := do
  let (found, _) ← foundAtCursor
  fail (.unexpectedCharacter site found)

/-- Fails because of the character at the cursor, and consumes it. -/
def unexpectedConsumed {α : Type} (site : CharSite) : Reading α := do
  let (found, length) ← foundAtCursor
  advance length
  fail (.unexpectedCharacter site found)

/-- Changes the state of the reader in a way that depends on the settings. -/
def update (f : Settings → State → State) : Reading Unit := do
  let settings ← read
  modify (f settings)

end Reading

end JsonPull
