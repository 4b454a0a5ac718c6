/-! # Lines

Counting lines in a stream of bytes. Offsets count from the start of the stream, so they stay
right when the window over it moves. -/

namespace JsonPull

/-- The number of the current line, from 1 on, and the offset at which it starts. -/
structure Lines where
  line : Nat := 1
  start : Nat := 0
deriving DecidableEq, Repr

namespace Lines

/-- A line break was passed, and the next line starts at `start`. -/
def next (lines : Lines) (start : Nat) : Lines :=
  { line := lines.line + 1, start }

/-- How far `cursor` is behind the start of the line. -/
def position (lines : Lines) (cursor : Nat) : Nat :=
  cursor - lines.start

end Lines

end JsonPull
