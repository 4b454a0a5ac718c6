import JsonPull.Proofs.Reading.Typed
import JsonPull.Proofs.Stream.Answer
import JsonPull.Tokenizer

/-! # Calls

The public reads of a tokenizer, and what each of them ensures on its feed. -/

namespace JsonPull

/-- The forms that a value can be read in. -/
inductive Form where
  | int32
  | decimal
  | double
  | boolean
  | string
  | bytes
  | dateTime
  | dateTimeOffset
deriving DecidableEq, Repr

/-- A public read: of the next token, or of the next value in some form. -/
inductive Call where
  | read
  | readAs (form : Form)
deriving DecidableEq, Repr

/-- What a public read answers. -/
inductive Answer where
  | found (b : Bool)
  | int32 (n : Option Int)
  | decimal (x : Option Number.Decimal)
  | double (x : Option Number.Double)
  | boolean (b : Option Bool)
  | string (text : Option String)
  | bytes (data : Option (List UInt8))
  | dateTime (date : Option (DateRead Timestamp))
  | dateTimeOffset (date : Option (DateRead Timestamp))
deriving DecidableEq

def Form.request : Form → Request
  | int32 => .int32
  | decimal => .decimal
  | double => .double
  | boolean => .boolean
  | string => .string
  | bytes => .bytes
  | dateTime => .dateTime
  | dateTimeOffset => .dateTimeOffset

/-- What a form makes of the value that was read. -/
def Form.answer (value : Option Value) : Form → Answer
  | int32 => .int32 (value.bind Value.asInt32?)
  | decimal => .decimal (value.bind Value.asDecimal?)
  | double => .double (value.bind Value.asDouble?)
  | boolean => .boolean (value.bind Value.asBoolean?)
  | string => .string (value.bind Value.asString?)
  | bytes => .bytes (value.bind Value.asBytes?)
  | dateTime => .dateTime (value.bind Value.asDate?)
  | dateTimeOffset => .dateTimeOffset (value.bind Value.asOffsetDate?)

namespace Tokenizer

/-- Reads a value in a form. -/
def readForm : Form → Tokenizer → Except ReadError Answer × Tokenizer
  | .int32, t => (t.readInt32.1.map .int32, t.readInt32.2)
  | .decimal, t => (t.readDecimal.1.map .decimal, t.readDecimal.2)
  | .double, t => (t.readDouble.1.map .double, t.readDouble.2)
  | .boolean, t => (t.readBoolean.1.map .boolean, t.readBoolean.2)
  | .string, t => (t.readString.1.map .string, t.readString.2)
  | .bytes, t => (t.readBytes.1.map .bytes, t.readBytes.2)
  | .dateTime, t => (t.readDateTime.1.map .dateTime, t.readDateTime.2)
  | .dateTimeOffset, t => (t.readDateTimeOffset.1.map .dateTimeOffset, t.readDateTimeOffset.2)

/-- Makes a call. -/
def call : Call → Tokenizer → Except ReadError Answer × Tokenizer
  | .read, t => (t.read.1.map .found, t.read.2)
  | .readAs form, t => t.readForm form

/-! ## Programs -/

/-- The program of a typed read. -/
def requesting (request : Request) : Reading Unit := do
  modify State.clearSlot
  Reading.requested request

/-- The program of a plain read. -/
def next : Reading Bool := do
  modify State.clearSlot
  Reading.token

theorem read_eq (t : Tokenizer) : t.read = t.run next := rfl

theorem map_readAs {α : Type} (request : Request) (convert : Value → Option α)
    (wrap : Option α → Answer) (t : Tokenizer) :
    ((t.readAs request convert).1.map wrap, (t.readAs request convert).2) =
      ((t.run (requesting request)).1.map
        fun _ => wrap ((t.run (requesting request)).2.value?.bind convert),
        (t.run (requesting request)).2) := by
  have h : t.readAs request convert = ((t.run (requesting request)).1.map
      fun _ => (t.run (requesting request)).2.value?.bind convert,
      (t.run (requesting request)).2) := rfl
  rw [h]
  cases (t.run (requesting request)).1 <;> rfl

theorem readForm_eq (form : Form) (t : Tokenizer) :
    t.readForm form = ((t.run (requesting form.request)).1.map
      fun _ => form.answer (t.run (requesting form.request)).2.value?,
      (t.run (requesting form.request)).2) := by
  cases form <;> exact map_readAs _ _ _ t

end Tokenizer

namespace Call

/-- What the program of a call ends with. -/
def Result : Call → Type
  | read => Bool
  | readAs _ => Unit

/-- The program of a call. -/
def program : (c : Call) → Reading c.Result
  | read => Tokenizer.next
  | readAs form => Tokenizer.requesting form.request

/-- What a call answers when its program ended, and `value` is there. -/
def answer (value : Option Value) : (c : Call) → c.Result → Answer
  | read, b => .found b
  | readAs form, _ => form.answer value

end Call

namespace Tokenizer

/-- A call runs its program and answers by what that leaves. -/
theorem call_eq (c : Call) (t : Tokenizer) :
    t.call c = ((t.run c.program).1.map (c.answer (t.run c.program).2.value?),
      (t.run c.program).2) := by
  cases c with
  | read => rfl
  | readAs form => exact readForm_eq form t

theorem options_call (c : Call) (t : Tokenizer) : (t.call c).2.options = t.options := by
  rw [call_eq]
  rfl

/-- What running a program shows of the feed. -/
def runEvents {α : Type} (reading : Reading α) (t : Tokenizer) : List Event :=
  Feed.scanEvents ((reading.run t.options.settings).run.run t.state) t.feed

/-- What a call shows of the feed. -/
def callEvents : Call → Tokenizer → List Event
  | .read, t => t.runEvents next
  | .readAs form, t => t.runEvents (requesting form.request)

theorem callEvents_eq (c : Call) (t : Tokenizer) : t.callEvents c = t.runEvents c.program := by
  cases c <;> rfl

/-! ## Runs -/

variable {stream delivered : List UInt8} {d : Reach stream.length} {t : Tokenizer}

/-- What all runs of a program end with, its run on a tokenizer ends with. -/
theorem run_ensures {α : Type} {x : Reading α} {ok : α → State → Reach stream.length → Prop}
    {err : ReadError → State → Reach stream.length → Prop}
    (h : x.Ensures t.options.settings t.state d ok err) (hfits : t.feed.Fits stream delivered d) :
    ∃ delivered' d', Feed.Moves stream delivered t.feed d (t.runEvents x) delivered'
        (t.run x).2.feed d' ∧
      match (t.run x).1 with
      | .ok a => ok a (t.run x).2.state d'
      | .error e => err e (t.run x).2.state d' := by
  obtain ⟨d', delivered', hpost, hmoves⟩ := Feed.run_ensures h.run hfits
  refine ⟨delivered', d', hmoves, ?_⟩
  unfold run
  dsimp only
  generalize t.feed.run ((x.run t.options.settings).run.run t.state) = outcome at hpost ⊢
  obtain ⟨⟨r | a, s⟩, feed⟩ := outcome <;> exact hpost.2

theorem ensures_next (s : State) (d : Reach stream.length) (settings : Settings) :
    next.Ensures settings s d (fun _ s' d' => State.Call settings s.clearSlot s' ∧ s'.Held d')
      State.Failed := by
  unfold next
  rw [Reading.ensures_modify_bind]
  exact (Reading.ensures_token rfl).mono (fun _ _ _ h => ⟨h.call, h.held⟩) fun _ _ _ h => h

theorem ensures_requesting (request : Request) (s : State) (d : Reach stream.length)
    (settings : Settings) :
    (requesting request).Ensures settings s d
      (fun _ s' d' => State.Call settings s.clearSlot s' ∧ s'.Held d') State.Failed := by
  unfold requesting
  rw [Reading.ensures_modify_bind]
  exact Reading.ensures_requested request rfl

theorem ensures_program (c : Call) (s : State) (d : Reach stream.length) (settings : Settings) :
    c.program.Ensures settings s d (fun _ s' d' => State.Call settings s.clearSlot s' ∧ s'.Held d')
      State.Failed := by
  cases c with
  | read => exact ensures_next s d settings
  | readAs form => exact ensures_requesting form.request s d settings

/-- A program whose success is a step, and which leaves the value held in any case. -/
theorem run_steps {α : Type} {x : Reading α} (hfits : t.feed.Fits stream delivered d)
    (h : x.Ensures t.options.settings t.state d
      (fun _ s' d' => State.Call t.options.settings t.state.clearSlot s' ∧ s'.Held d')
      State.Failed) :
    ∃ delivered' d', Feed.Moves stream delivered t.feed d (t.runEvents x) delivered'
        (t.run x).2.feed d' ∧ (t.run x).2.state.Held d' ∧
      (∀ a, (t.run x).1 = .ok a →
        State.Call t.options.settings t.state.clearSlot (t.run x).2.state) ∧
      ∀ e, (t.run x).1 = .error e → e.kind.isDefect = false := by
  obtain ⟨delivered', d', hmoves, hpost⟩ := run_ensures h hfits
  refine ⟨delivered', d', hmoves, ?_, ?_, ?_⟩
  · cases hr : (t.run x).1 with
    | error e =>
        rw [hr] at hpost
        exact hpost.held
    | ok a =>
        rw [hr] at hpost
        exact hpost.2
  · intro a ha
    rw [ha] at hpost
    exact hpost.1
  · intro e he
    rw [he] at hpost
    exact hpost.kind

/-- From one state of a tokenizer to the one after a call. -/
structure Called (stream delivered : List UInt8) (d : Reach stream.length) (c : Call)
    (t : Tokenizer) (delivered' : List UInt8) (d' : Reach stream.length) : Prop where
  moves : Feed.Moves stream delivered t.feed d (t.callEvents c) delivered' (t.call c).2.feed d'
  held : (t.call c).2.state.Held d'
  step : ∀ a, (t.call c).1 = .ok a →
    State.Call t.options.settings t.state.clearSlot (t.call c).2.state
  faultless : ∀ e, (t.call c).1 = .error e → e.kind.isDefect = false

theorem called (c : Call) (hfits : t.feed.Fits stream delivered d) :
    ∃ delivered' d', Called stream delivered d c t delivered' d' := by
  obtain ⟨delivered', d', hmoves, hheld, hstep, hkind⟩ :=
    run_steps hfits (ensures_program c t.state d t.options.settings)
  refine ⟨delivered', d', ?_, ?_, ?_, ?_⟩
  · rw [call_eq, callEvents_eq]
    exact hmoves
  · rw [call_eq]
    exact hheld
  · intro a ha
    rw [call_eq] at ha ⊢
    cases hr : (t.run c.program).1 with
    | error e => simp [hr, Except.map] at ha
    | ok b => exact hstep b hr
  · intro e he
    rw [call_eq] at he
    cases hr : (t.run c.program).1 with
    | error e' =>
        simp only [hr, Except.map, Except.error.injEq] at he
        exact he ▸ hkind e' hr
    | ok b => simp [hr, Except.map] at he

/-! ## The start -/

/-- Before the first call, nothing was delivered and nothing is known of the stream. -/
theorem fits_ofSource (options : Options) (source : Source) (pool : Pool) (heeds : Bool) :
    (ofSource options source pool heeds).feed.Fits source.bytes []
      ⟨none, [], 0, 0, false, nofun, nofun, le_rfl, Nat.zero_le _⟩ :=
  ⟨⟨⟨le_rfl, Nat.zero_le _, rfl, rfl⟩, rfl⟩, nofun, rfl, le_rfl⟩

end Tokenizer

end JsonPull
