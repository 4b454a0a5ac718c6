/-! # Sources

Where the bytes of a stream come from. A source delivers its script part by part, at most so many
bytes at a time, and parts may also be faults. A source ends for good where it delivers nothing. -/

namespace JsonPull

/-- A part of a script: the bytes of a block from `start` on, a failure, an interruption, a delay,
or a request to cancel the call that waits for bytes. -/
inductive Part where
  | bytes (data : ByteArray) (start : Nat)
  | failure (message : String)
  | interrupted
  | pending
  | cancel

/-- How a source waits: it blocks and tries again after an interruption, or it is polled and
reports it. -/
inductive Waiting where
  | blocking
  | polled
deriving DecidableEq, Repr

/-- A script with the most bytes that one read may deliver, if that is limited. A closed source
delivers nothing. -/
structure Source where
  script : List Part
  limit : Option Nat := none
  waiting : Waiting := .blocking
  isOpen : Bool := true

/-- The outcome of a read: the bytes or the failure, how often the source was asked for it, and
whether the waiting call was to be cancelled. -/
structure Delivery where
  result : Except String ByteArray
  reads : Nat
  cancels : Bool
  script : List Part

namespace Source

/-- A source of the given bytes. -/
def ofBytes (data : ByteArray) : Source :=
  { script := [.bytes data 0] }

/-- The number of bytes in a script. -/
def scriptSize : List Part → Nat
  | [] => 0
  | .bytes data start :: rest => data.size - start + scriptSize rest
  | _ :: rest => scriptSize rest

/-- The number of bytes a source has left. -/
def remaining (source : Source) : Nat := scriptSize source.script

/-- The next bytes of a block from `start` on, and what is left of the script. -/
def takeBytes (room : Nat) (data : ByteArray) (start : Nat) (rest : List Part) :
    ByteArray × List Part :=
  (data.extract start (start + room),
    if data.size ≤ start + room then rest else .bytes data (start + room) :: rest)

/-- Plays a script up to its first bytes or failure. -/
def play (waiting : Waiting) (room : Nat) : List Part → Delivery
  | [] => { result := .ok ByteArray.empty, reads := 1, cancels := false, script := [] }
  | .bytes data start :: rest =>
    let (taken, script) := takeBytes room data start rest
    { result := .ok taken, reads := 1, cancels := false, script }
  | .failure message :: rest =>
    { result := .error message, reads := 1, cancels := false, script := rest }
  | .interrupted :: rest =>
    match waiting with
    | .blocking => let d := play waiting room rest; { d with reads := d.reads + 1 }
    | .polled => { result := .error "interrupted", reads := 1, cancels := false, script := rest }
  | .pending :: rest =>
    match waiting with
    | .blocking => play waiting room rest
    | .polled => let d := play waiting room rest; { d with reads := d.reads + 1 }
  | .cancel :: rest => { play waiting room rest with cancels := true }

/-- Reads into a room of so many bytes. -/
def read (source : Source) (room : Nat) : Delivery × Source :=
  if source.isOpen then
    let d := play source.waiting (min room (source.limit.getD room)) source.script
    (d, { source with script := d.script })
  else
    ({ result := .ok ByteArray.empty, reads := 0, cancels := false, script := source.script }, source)

/-- Lets go of what the bytes come from. -/
def close (source : Source) : Source :=
  { source with isOpen := false }

end Source

end JsonPull
