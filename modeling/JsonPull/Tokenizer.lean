import JsonPull.Reader.Typed
import JsonPull.Text.Quoted

/-! # The tokenizer

A tokenizer reads one token per call from a source. Each call answers with its result or failure
and the tokenizer to go on with, also after a failure. -/

namespace JsonPull

/-- A reader over a source: its options, what it knows, and the feed of its bytes. -/
structure Tokenizer where
  options : Options
  state : State
  feed : Feed

namespace Tokenizer

/-- A tokenizer at the start of a source. Its storage comes from `pool` if the options say so. A
tokenizer that heeds cancellation fails before the next fetch after it was cancelled. -/
def ofSource (options : Options) (source : Source) (pool : Pool) (heedsCancel : Bool) : Tokenizer :=
  { options
    state := {}
    feed := Feed.start source options.initialCapacity (if options.pooled then some pool else none)
      heedsCancel }

/-- Runs a program of the reader. -/
def run {α : Type} (reading : Reading α) (t : Tokenizer) : Except ReadError α × Tokenizer :=
  let ((result, state), feed) := t.feed.run ((reading.run t.options.settings).run.run t.state)
  (result, { t with state, feed })

/-! ## Reading -/

/-- Reads the next token. Answers whether there was one. -/
def read (t : Tokenizer) : Except ReadError Bool × Tokenizer :=
  t.run do
    modify State.clearSlot
    Reading.token

/-- The value of the current token. A value whose bytes are no longer held is lost. -/
def value? (t : Tokenizer) : Option Value :=
  match t.state.slot with
  | .empty => none
  | .held span => (t.feed.window.slice? span.first span.last).map fun bytes =>
      .string (Text.ofBytes bytes)
  | .owned value => some value

/-- Reads the next value in the form of a request, and answers what `convert` makes of it. -/
def readAs {α : Type} (request : Request) (convert : Value → Option α) (t : Tokenizer) :
    Except ReadError (Option α) × Tokenizer :=
  let (result, t) := t.run do
    modify State.clearSlot
    Reading.requested request
  (result.map fun _ => t.value?.bind convert, t)

/-- Reads an integer of 32 bits. No value means `null`, the end of a container or the end of the
input; this holds for all typed reads. -/
def readInt32 : Tokenizer → Except ReadError (Option Int) × Tokenizer :=
  readAs .int32 Value.asInt32?

def readDecimal : Tokenizer → Except ReadError (Option Number.Decimal) × Tokenizer :=
  readAs .decimal Value.asDecimal?

def readDouble : Tokenizer → Except ReadError (Option Number.Double) × Tokenizer :=
  readAs .double Value.asDouble?

/-- Reads a truth value: a word, a number, or a text that spells one of the words. -/
def readBoolean : Tokenizer → Except ReadError (Option Bool) × Tokenizer :=
  readAs .boolean Value.asBoolean?

/-- Reads any scalar as a text. Numbers are checked and keep their spelling. -/
def readString : Tokenizer → Except ReadError (Option String) × Tokenizer :=
  readAs .string Value.asString?

/-- Reads bytes: a text in Base64, a GUID, or an array of numbers. -/
def readBytes : Tokenizer → Except ReadError (Option (List UInt8)) × Tokenizer :=
  readAs .bytes Value.asBytes?

/-- Reads a date. A text that is none is answered as it is. -/
def readDateTime : Tokenizer → Except ReadError (Option (DateRead Timestamp)) × Tokenizer :=
  readAs .dateTime Value.asDate?

/-- Reads a date with its offset. A text that is none is answered as it is. -/
def readDateTimeOffset : Tokenizer → Except ReadError (Option (DateRead Timestamp)) × Tokenizer :=
  readAs .dateTimeOffset Value.asOffsetDate?

/-! ## What a tokenizer shows -/

def token (t : Tokenizer) : Token := t.state.token

def phase (t : Tokenizer) : Phase := t.state.phase

def path (t : Tokenizer) : String := t.state.path

def depth (t : Tokenizer) : Nat := t.state.depth

def line (t : Tokenizer) : Nat := t.state.lines.line

/-- How many bytes of the current line are consumed. -/
def position (t : Tokenizer) : Nat := t.state.lines.position t.feed.window.cursor

/-- The quote of the last string or property name; none if the name had no quotes. -/
def quote? (t : Tokenizer) : Option Char :=
  t.state.quote.map fun b => Char.ofNat b.toNat

/-- One line that shows the tokenizer and its window. -/
def describe (t : Tokenizer) : String :=
  let w := t.feed.window
  "JsonTokenizer \x7b state: " ++ t.phase.text ++ ", token: " ++ t.token.text ++ ", path: " ++
    Text.quote t.path ++ ", line: " ++ toString t.line ++ ", buffer: CharBuffer \x7b capacity: " ++
    toString w.capacity ++ ", pos: " ++ toString w.pos ++ ", used: " ++ toString w.used ++
    ", consumed: " ++ toString w.consumed ++ ", epoch: " ++ toString w.epoch.toNat ++
    ", end_of_input: " ++ toString w.ended ++ ", unread: " ++ Text.quoteBytes w.unread ++
    " \x7d, .. \x7d"

/-! ## Closing and cancelling -/

/-- Gives back the storage and, if the options say so, closes the source. A closed tokenizer stays
as it is. -/
def close (t : Tokenizer) : Tokenizer :=
  if t.phase = .closed then t
  else
    let feed := t.feed.release
    { t with
      state := { t.state with phase := .closed, token := .none, slot := .empty, frames := [] }
      feed := if t.options.closeInput then { feed with source := feed.source.close } else feed }

/-- Ends the use of a tokenizer. Answers its source and the pool with the storage back in it. -/
def finish (t : Tokenizer) : Source × Option Pool :=
  (t.feed.source, t.feed.release.pool)

/-- Cancels the calls to come, as far as they fetch. -/
def cancel (t : Tokenizer) : Tokenizer :=
  { t with feed := { t.feed with cancelled := true } }

/-- Lets the calls to come fetch again. -/
def uncancel (t : Tokenizer) : Tokenizer :=
  { t with feed := { t.feed with cancelled := false } }

/-- The sizes of the rooms that were offered to the source since this was last asked. -/
def takeOffers (t : Tokenizer) : List Nat × Tokenizer :=
  (t.feed.offers.reverse, { t with feed := { t.feed with offers := [] } })

/-! ## Draining -/

/-- Reads until there is no token or a read fails, at most so many times. Answers what `observe`
sees after each read. -/
def drainAtMost {β : Type} (observe : Except ReadError Bool → Tokenizer → β × Tokenizer) :
    Nat → Tokenizer → List β × Tokenizer
  | 0, t => ([], t)
  | n + 1, t =>
    let (result, t) := t.read
    let (seen, t) := observe result t
    match result with
    | .ok true =>
      let (rest, t) := drainAtMost observe n t
      (seen :: rest, t)
    | _ => ([seen], t)

/-- Reads until there is no token or a read fails. A read takes at least one byte for a token,
except that an elided value leaves its comma, which the next read takes. -/
def drain {β : Type} (observe : Except ReadError Bool → Tokenizer → β × Tokenizer)
    (t : Tokenizer) : List β × Tokenizer :=
  drainAtMost observe (t.feed.budget + 2) t

end Tokenizer

end JsonPull
