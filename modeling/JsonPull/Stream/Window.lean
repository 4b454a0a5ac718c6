/-! # The window over a stream

A window is a block of bytes over a part of a stream: consumed bytes that are still held, then
unread ones, then room for more. Between tokens the consumed bytes may be dropped, which moves the
unread ones to the front; within a token the window only grows. -/

namespace JsonPull

/-- Bytes `0` to `used` of `data` are held, of which those before `pos` are consumed. `consumed` is
the offset of the first held byte in the stream, and `epoch` counts how often the bytes moved. -/
structure Window where
  data : ByteArray
  pos : Nat := 0
  used : Nat := 0
  consumed : Nat := 0
  epoch : UInt32 := 0
  ended : Bool := false

/-- How a window makes room: it has enough, it takes a larger block for the bytes from `start` on,
or it moves the unread bytes to the front. -/
inductive Room where
  | enough
  | grow (capacity start : Nat)
  | compact
deriving DecidableEq, Repr

/-- Which held bytes must stay where they are: all of them, or the unread ones only. -/
inductive Retain where
  | all
  | unread
deriving DecidableEq, Repr

namespace Window

/-- Windows of at least this many bytes are compacted before every string and number. -/
def largeCapacity : Nat := 1024 * 1024

def capacity (w : Window) : Nat := w.data.size

/-- The number of held bytes that are not consumed. -/
def unreadCount (w : Window) : Nat := w.used - w.pos

/-- The offset of the cursor in the stream. -/
def cursor (w : Window) : Nat := w.consumed + w.pos

/-- The held byte `ahead` of the cursor. -/
def byte? (w : Window) (ahead : Nat) : Option UInt8 :=
  if w.pos + ahead < w.used then w.data[w.pos + ahead]? else none

/-- The unread bytes. -/
def unread (w : Window) : List UInt8 :=
  (w.data.extract w.pos w.used).data.toList

/-- The held bytes between two offsets of the stream; nothing if they are no longer held. -/
def slice? (w : Window) (first last : Nat) : Option (List UInt8) :=
  if w.consumed ≤ first ∧ first ≤ last ∧ last ≤ w.consumed + w.used then
    some (w.data.extract (first - w.consumed) (last - w.consumed)).data.toList
  else none

/-- Consumes `count` bytes. -/
def advance (w : Window) (count : Nat) : Window :=
  { w with pos := w.pos + count }

/-- How to make room for `required` bytes behind the held ones, with a byte to spare. -/
def room (w : Window) (required : Nat) (retain : Retain) : Room :=
  if w.used + required < w.capacity then .enough
  else match retain with
    | .all => .grow (max (w.capacity * 2) (w.used + required + 1)) 0
    | .unread =>
      if w.capacity ≤ w.unreadCount + required + 1 then .grow (w.unreadCount + required + 1) w.pos
      else .compact

/-- Forgets the consumed bytes after the unread ones were moved to the front. -/
def rebase (w : Window) : Window :=
  { w with
    pos := 0
    used := w.unreadCount
    consumed := w.consumed + w.pos
    epoch := if w.pos = 0 then w.epoch else w.epoch + 1 }

/-- Moves the unread bytes to the front. -/
def compact (w : Window) : Window :=
  let unread := w.data.extract w.pos w.used
  { w with data := unread.copySlice 0 w.data 0 unread.size }.rebase

/-- Moves the bytes from `start` on into a fresh block. -/
def moveInto (w : Window) (block : ByteArray) (start : Nat) : Window :=
  { w with data := w.data.extract start w.used ++ block.extract (w.used - start) block.size }

/-- Moves the unread bytes to the front if the cursor is close to the end of the block, or if the
block is large. -/
def settle (w : Window) : Window :=
  if (w.capacity - w.pos ≤ w.capacity / 10 ∨ largeCapacity ≤ w.capacity) ∧ 0 < w.pos then w.compact
  else w

/-- The size of the room behind the held bytes. -/
def spare (w : Window) : Nat := w.capacity - w.used

/-- Takes up bytes that were read into the room; none means that the stream has ended. -/
def commit (w : Window) (bytes : ByteArray) : Window :=
  { w with
    data := bytes.copySlice 0 w.data w.used bytes.size
    used := w.used + bytes.size
    ended := w.ended || bytes.isEmpty }

/-- Gives the block away. -/
def release (w : Window) : Window :=
  { w with data := ByteArray.empty, pos := 0, used := 0, epoch := w.epoch + 1, ended := true }

@[simp] theorem cursor_rebase (w : Window) : w.rebase.cursor = w.cursor := by
  simp [rebase, cursor]

@[simp] theorem cursor_compact (w : Window) : w.compact.cursor = w.cursor := by
  simp [compact, rebase, cursor]

@[simp] theorem cursor_settle (w : Window) : w.settle.cursor = w.cursor := by
  unfold settle
  split
  · exact cursor_compact w
  · rfl

@[simp] theorem cursor_advance (w : Window) (count : Nat) :
    (w.advance count).cursor = w.cursor + count := by
  simp [advance, cursor, Nat.add_assoc]

end Window

end JsonPull
