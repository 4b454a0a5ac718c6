import JsonPull.Stream.Pool
import JsonPull.Stream.Source
import JsonPull.Stream.Window

/-! # Feeding a window from a source

A feed keeps a window over its source and fetches more bytes when they are asked for. Its storage
may come from a pool. A call that heeds cancellation is refused just before it would fetch. -/

namespace JsonPull

/-- Why no more bytes could be fetched. -/
inductive FetchFault where
  | cancelled
  | io (message : String)
deriving DecidableEq, Repr

/-- A window, the source behind it, and the pool that its storage comes from. `offers` lists the
sizes of the rooms that were offered to the source, the latest first. -/
structure Feed where
  window : Window
  source : Source
  pool : Option Pool := none
  cancelled : Bool := false
  heedsCancel : Bool := false
  offers : List Nat := []

namespace Feed

/-- A block of at least `size` zeros, from the pool if there is one. -/
def rent (pool : Option Pool) (size : Nat) : ByteArray × Option Pool :=
  match pool with
  | some p => let (block, p) := p.rent size; (block, some p)
  | none => (zeroBlock size, none)

/-- Starts to feed from a source. The window has at least one byte. -/
def start (source : Source) (capacity : Nat) (pool : Option Pool) (heedsCancel : Bool) : Feed :=
  let (data, pool) := rent pool (max capacity 1)
  { window := { data }, source, pool, heedsCancel }

/-- Makes room for `required` bytes, with a byte to spare. -/
def makeRoom (feed : Feed) (required : Nat) (retain : Retain) : Feed :=
  match feed.window.room required retain with
  | .enough => feed
  | .compact => { feed with window := feed.window.compact }
  | .grow capacity start =>
    let old := feed.window.data
    let (block, pool) := rent feed.pool capacity
    let moved := feed.window.moveInto block start
    { feed with
      window := match retain with
        | .all => moved
        | .unread => moved.rebase
      pool := pool.map (·.release old) }

/-- Fetches bytes from the source once, with room for `required` of them. Answers how many
arrived; none means that the source has ended, and then it is not asked again. -/
def fetch (feed : Feed) (required : Nat) (retain : Retain) : Except FetchFault Nat × Feed :=
  if feed.window.ended then (.ok 0, feed)
  else if feed.heedsCancel && feed.cancelled then (.error .cancelled, feed)
  else
    let feed := feed.makeRoom required retain
    let room := feed.window.spare
    let (delivery, source) := feed.source.read room
    let feed := { feed with
      source
      cancelled := feed.cancelled || delivery.cancels
      offers := List.replicate delivery.reads room ++ feed.offers }
    match delivery.result with
    | .ok bytes => (.ok bytes.size, { feed with window := feed.window.commit bytes })
    | .error message => (.error (.io message), feed)

/-- Fetches until the byte `ahead` of the cursor is held, or the source has ended. Each fetch
brings at least one of the missing bytes, so their number bounds the fetches. -/
def ensure (ahead : Nat) (retain : Retain) : Nat → Feed → Except FetchFault Unit × Feed
  | 0, feed => (.ok (), feed)
  | missing + 1, feed =>
    if feed.window.pos + ahead < feed.window.used then (.ok (), feed)
    else
      match feed.fetch (feed.window.pos + ahead + 1 - feed.window.used) retain with
      | (.error fault, feed) => (.error fault, feed)
      | (.ok 0, feed) => (.ok (), feed)
      | (.ok (_ + 1), feed) => ensure ahead retain missing feed

/-- The byte `ahead` of the cursor, fetched if it must be; nothing if the source ends before. -/
def byte? (feed : Feed) (ahead : Nat) (retain : Retain) :
    Except FetchFault (Option UInt8) × Feed :=
  let missing := feed.window.pos + ahead + 1 - feed.window.used
  match ensure ahead retain missing feed with
  | (.ok (), feed) => (.ok (feed.window.byte? ahead), feed)
  | (.error fault, feed) => (.error fault, feed)

/-- The number of bytes that can still be consumed. -/
def budget (feed : Feed) : Nat :=
  feed.window.unreadCount + feed.source.remaining

/-- Gives the storage back. Once is enough. -/
def release (feed : Feed) : Feed :=
  { feed with
    window := feed.window.release
    pool := if feed.window.data.isEmpty then feed.pool
      else feed.pool.map (·.release feed.window.data) }

end Feed

end JsonPull
