import JsonPull.NameTable

/-! # Options of a reader -/

namespace JsonPull

/-- The form of numbers that are not integers, and of integers too large for a word. -/
inductive FloatHandling where
  | double
  | decimal
deriving DecidableEq, Repr

/-- What becomes of texts that look like dates. -/
inductive DateHandling where
  | none
  | dateTime
  | dateTimeOffset
deriving DecidableEq, Repr

namespace FloatHandling

def text : FloatHandling → String
  | double => "Double"
  | decimal => "Decimal"

end FloatHandling

namespace DateHandling

def text : DateHandling → String
  | none => "None"
  | dateTime => "DateTime"
  | dateTimeOffset => "DateTimeOffset"

end DateHandling

/-- How a reader reads. -/
structure Options where
  /-- The form of numbers that are not integers. -/
  floats : FloatHandling := .double
  /-- What becomes of texts that look like dates. -/
  dates : DateHandling := .dateTime
  /-- Further values may follow the first one. -/
  multipleValues : Bool := false
  /-- Comments are tokens. Typed reads skip them in any case. -/
  surfaceComments : Bool := true
  /-- How deep containers may be nested; nothing for no limit. -/
  maxDepth : Option Nat := some 64
  /-- Closing the reader closes its source. -/
  closeInput : Bool := true
  /-- Integers too large for a word keep their value. -/
  bigIntegers : Bool := false
  /-- The names that properties are expected to have. -/
  names : Option NameTable := none
  /-- The storage of the window is rented from a pool. -/
  pooled : Bool := false
  /-- The capacity the window starts with. -/
  initialCapacity : Nat := 1024
deriving DecidableEq, Repr

namespace Options

/-- One line that shows every option. -/
def describe (options : Options) : String :=
  let depth := match options.maxDepth with
    | some n => "Some(" ++ toString n ++ ")"
    | none => "None"
  "ReaderOptions \x7b float_parse_handling: " ++ options.floats.text ++
    ", date_parse_handling: " ++ options.dates.text ++
    ", allow_multiple_values: " ++ toString options.multipleValues ++
    ", surface_comments: " ++ toString options.surfaceComments ++
    ", max_depth: " ++ depth ++
    ", close_input: " ++ toString options.closeInput ++
    ", arbitrary_precision_integers: " ++ toString options.bigIntegers ++
    ", name_table: " ++ toString options.names.isSome ++
    ", buffer_pool: " ++ toString options.pooled ++
    ", initial_buffer_size: " ++ toString options.initialCapacity ++ " \x7d"

/-- The name to hand out for a property that was read. -/
def intern (options : Options) (name : String) : String :=
  (options.names.bind (·.get? name)).getD name

theorem intern_eq (options : Options) (name : String) : options.intern name = name := by
  unfold intern
  cases h : options.names.bind (·.get? name) with
  | none => rfl
  | some known =>
    obtain ⟨table, -, ht⟩ := Option.bind_eq_some_iff.mp h
    exact NameTable.eq_of_get? ht

end Options

/-- What a reading goes by. The storage of the window is no part of it, and of the expected names
only the name that is handed out for each one. -/
structure Settings where
  floats : FloatHandling
  dates : DateHandling
  multipleValues : Bool
  surfaceComments : Bool
  maxDepth : Option Nat
  bigIntegers : Bool
  /-- The name to hand out for a property that was read. -/
  intern : String → String

namespace Options

/-- The part of the options that a reading goes by. -/
def settings (options : Options) : Settings where
  floats := options.floats
  dates := options.dates
  multipleValues := options.multipleValues
  surfaceComments := options.surfaceComments
  maxDepth := options.maxDepth
  bigIntegers := options.bigIntegers
  intern := options.intern

end Options

end JsonPull
