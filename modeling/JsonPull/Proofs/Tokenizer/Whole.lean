import JsonPull.Proofs.Reading.Success
import JsonPull.Proofs.Tokenizer.Call

/-! # Reading a stream as a whole

A reader of a stream that is there as a whole has no window, fetches nothing and loses nothing. A
tokenizer over a steady source shows the same as this reader, and so it does not matter how the
source splits its bytes or where they are kept meanwhile. -/

namespace JsonPull

/-- What a tokenizer shows between two calls. -/
structure View where
  token : Token
  value? : Option Value
  path : String
  depth : Nat
  line : Nat
  position : Nat
  phase : Phase
  quote? : Option Char
deriving DecidableEq

namespace Tokenizer

def view (t : Tokenizer) : View where
  token := t.token
  value? := t.value?
  path := t.path
  depth := t.depth
  line := t.line
  position := t.position
  phase := t.phase
  quote? := t.quote?

/-- What is seen of several calls: the answer or the error of each, and what is shown after it. -/
def observe : List Call → Tokenizer → List (Except ReadError Answer × View)
  | [], _ => []
  | c :: calls, t => ((t.call c).1, (t.call c).2.view) :: observe calls (t.call c).2

end Tokenizer

/-- A reader of a stream that is there as a whole. -/
structure Whole where
  state : State := {}
  cursor : Nat := 0
deriving DecidableEq

namespace Whole

/-- Runs a program of the reader. -/
def run {α : Type} (settings : Settings) (stream : List UInt8) (reading : Reading α) (r : Whole) :
    Except ReadError α × Whole :=
  let ((result, state), cursor) :=
    ((reading.run settings).run.run r.state).runWith (tape stream) r.cursor
  (result, { state, cursor })

/-- The value of the current token. -/
def value? (stream : List UInt8) (r : Whole) : Option Value :=
  r.state.slot.value? stream

def view (stream : List UInt8) (r : Whole) : View where
  token := r.state.token
  value? := r.value? stream
  path := r.state.path
  depth := r.state.depth
  line := r.state.lines.line
  position := r.state.lines.position r.cursor
  phase := r.state.phase
  quote? := r.state.quote.map fun b => Char.ofNat b.toNat

/-- Makes a call. -/
def call (settings : Settings) (stream : List UInt8) :
    Call → Whole → Except ReadError Answer × Whole
  | .read, r =>
    let (result, r) := r.run settings stream Tokenizer.next
    (result.map .found, r)
  | .readAs form, r =>
    let (result, r) := r.run settings stream (Tokenizer.requesting form.request)
    (result.map fun _ => form.answer (r.value? stream), r)

theorem call_eq (settings : Settings) (stream : List UInt8) (c : Call) (r : Whole) :
    r.call settings stream c =
      ((r.run settings stream c.program).1.map
        (c.answer ((r.run settings stream c.program).2.value? stream)),
        (r.run settings stream c.program).2) := by
  cases c <;> rfl

/-- What is seen of several calls. -/
def observe (settings : Settings) (stream : List UInt8) :
    List Call → Whole → List (Except ReadError Answer × View)
  | [], _ => []
  | c :: calls, r =>
    let (answer, r) := r.call settings stream c
    (answer, r.view stream) :: observe settings stream calls r

end Whole

namespace Tokenizer

/-- What a reader of the whole stream knows when a tokenizer is where it is. -/
def whole (t : Tokenizer) : Whole where
  state := t.state
  cursor := t.feed.window.cursor

/-- A tokenizer whose source is steady, and whose value is where it should be. -/
structure Sound (stream : List UInt8) (t : Tokenizer) : Prop where
  steady : t.feed.Steady
  held : ∃ delivered, ∃ d : Reach stream.length, t.feed.Fits stream delivered d ∧ t.state.Held d

variable {stream delivered : List UInt8} {d : Reach stream.length} {t : Tokenizer}

theorem Sound.cursor_le (h : t.Sound stream) : t.feed.window.cursor ≤ stream.length := by
  obtain ⟨delivered, d, hfits, -⟩ := h.held
  exact hfits.follows.cursor_le.trans hfits.follows.length_le

theorem value?_whole (hfits : t.feed.Fits stream delivered d) (hheld : t.state.Held d) :
    t.value? = t.whole.value? stream := by
  unfold value? Whole.value? whole
  dsimp only
  cases hslot : t.state.slot with
  | empty => rfl
  | owned value => rfl
  | held span =>
      obtain ⟨hfirst, hle, hlast⟩ := d.marks_within span (hheld span hslot)
      have hslice := hfits.follows.slice? (hfits.consumed_le hfirst) hle
        (hlast.trans (d.pos_le.trans hfits.seen))
      dsimp only
      rw [hslice, Option.map_some, Slot.value?]

theorem view_whole (hfits : t.feed.Fits stream delivered d) (hheld : t.state.Held d) :
    t.view = t.whole.view stream := by
  have hvalue := value?_whole hfits hheld
  unfold Tokenizer.view Whole.view
  rw [hvalue]
  rfl

theorem Sound.view (h : t.Sound stream) : t.view = t.whole.view stream := by
  obtain ⟨delivered, d, hfits, hheld⟩ := h.held
  exact view_whole hfits hheld

theorem run_whole {α : Type} {x : Reading α} {ok : α → State → Reach stream.length → Prop}
    {err : ReadError → State → Reach stream.length → Prop} (hsteady : t.feed.Steady)
    (hfits : t.feed.Fits stream delivered d) (h : x.Ensures t.options.settings t.state d ok err) :
    ((t.run x).1, (t.run x).2.whole) = t.whole.run t.options.settings stream x ∧
      (t.run x).2.feed.Steady := by
  obtain ⟨hresult, hcursor, hsteady⟩ := Feed.run_tape hsteady hfits h.run
  rw [hfits.cursor] at hresult hcursor
  have hfst : (t.run x).1 = (t.whole.run t.options.settings stream x).1 :=
    congrArg (·.1) hresult
  have hsnd : (t.run x).2.whole = (t.whole.run t.options.settings stream x).2 :=
    congrArg₂ Whole.mk (congrArg (·.2) hresult) hcursor
  exact ⟨Prod.ext hfst hsnd, hsteady⟩

/-- A call is one on the whole stream if its program runs as on the whole stream. -/
theorem call_whole {c : Call}
    (hrun : ((t.run c.program).1, (t.run c.program).2.whole) =
      t.whole.run t.options.settings stream c.program)
    (hfits : (t.call c).2.feed.Fits stream delivered d) (hheld : (t.call c).2.state.Held d) :
    ((t.call c).1, (t.call c).2.whole) = t.whole.call t.options.settings stream c := by
  rw [call_eq] at hfits hheld ⊢
  rw [Whole.call_eq, ← hrun]
  dsimp only
  rw [value?_whole hfits hheld]

/-- A call on a tokenizer is the call on the whole stream. -/
theorem Sound.call (h : t.Sound stream) (c : Call) :
    ((t.call c).1, (t.call c).2.whole) = t.whole.call t.options.settings stream c ∧
      (t.call c).2.Sound stream := by
  obtain ⟨delivered, d, hfits, hheld⟩ := h.held
  obtain ⟨delivered', d', hcalled⟩ := called c hfits
  obtain ⟨hrun, hsteady⟩ :=
    run_whole h.steady hfits (ensures_program c t.state d t.options.settings)
  refine ⟨call_whole hrun hcalled.moves.fits hcalled.held, ?_, delivered', d', hcalled.moves.fits,
    hcalled.held⟩
  rw [call_eq]
  exact hsteady

/-- A tokenizer shows what a reader of the whole stream shows. -/
theorem observe_whole (h : t.Sound stream) (calls : List Call) :
    t.observe calls = t.whole.observe t.options.settings stream calls := by
  induction calls generalizing t with
  | nil => rfl
  | cons c calls ih =>
      obtain ⟨hcall, hsound⟩ := h.call c
      rw [observe, Whole.observe, ← hcall, ih hsound, options_call, hsound.view]

/-! ## Partitions -/

theorem sound_ofSource (options : Options) {source : Source} (h : source.Steady) (pool : Pool)
    (heeds : Bool) : (ofSource options source pool heeds).Sound source.bytes :=
  ⟨⟨⟨h.fair, nofun⟩, h.quiet, rfl⟩, [], _, fits_ofSource options source pool heeds,
    State.held_of_empty rfl _⟩

/-- A table of names changes no name. -/
theorem settings_eq (options : Options) (names : Option NameTable) (pooled : Bool)
    (initialCapacity : Nat) :
    { options with names, pooled, initialCapacity }.settings = options.settings := by
  have hintern : { options with names, pooled, initialCapacity }.intern = options.intern := by
    funext name
    rw [Options.intern_eq, Options.intern_eq]
  unfold Options.settings
  rw [hintern]

/-- Calls show the same for every way to split the stream, to keep its bytes, and to share names. -/
theorem observe_partition (options : Options) (names : Option NameTable) (pooled : Bool)
    (initialCapacity : Nat) {source source' : Source} (pool pool' : Pool) (heeds heeds' : Bool)
    (h : source.Steady) (h' : source'.Steady) (hbytes : source.bytes = source'.bytes)
    (calls : List Call) :
    (ofSource options source pool heeds).observe calls =
      (ofSource { options with names, pooled, initialCapacity } source' pool' heeds').observe
        calls := by
  have hwhole := observe_whole (sound_ofSource options h pool heeds) calls
  have hwhole' := observe_whole
    (sound_ofSource { options with names, pooled, initialCapacity } h' pool' heeds') calls
  rw [hwhole, hwhole', hbytes]
  congr 1
  exact (settings_eq options names pooled initialCapacity).symm

/-- The text `[1]` in one part, and byte by byte into a small block from a pool. -/
theorem observe_partition_bytewise :
    let source : Source := { script := [.bytes ⟨#[0x5B, 0x31, 0x5D]⟩ 0] }
    let source' : Source :=
      { script := [.bytes ⟨#[0x5B]⟩ 0, .pending, .bytes ⟨#[0x31, 0x5D]⟩ 0], limit := some 1 }
    let calls : List Call := [.read, .readAs .int32, .read]
    source.Steady ∧ source'.Steady ∧ source.bytes = source'.bytes ∧
      (ofSource {} source {} false).observe calls =
        (ofSource { pooled := true, initialCapacity := 2 } source' { free := [⟨#[0xFF]⟩] }
          true).observe calls := by
  intro source source' calls
  have h : source.Steady := by decide
  have h' : source'.Steady := by decide
  exact ⟨h, h', rfl, observe_partition {} none true 2 {} _ false true h h' rfl calls⟩

end Tokenizer

end JsonPull
