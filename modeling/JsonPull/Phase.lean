import JsonPull.Token

/-! # Phases

Where a reader is in the grammar. The phase decides what the next bytes may be. -/

namespace JsonPull

/-- What comes next: a value at top level, the value of a property, the first or a later element
of a container, a separator after a value, nothing more, or nothing at all after closing. -/
inductive Phase where
  | start
  | property
  | opened (container : Container)
  | within (container : Container)
  | postValue
  | finished
  | closed
deriving DecidableEq, Repr

namespace Phase

def text : Phase → String
  | start => "Start"
  | property => "Property"
  | opened c => c.text ++ "Start"
  | within c => c.text
  | postValue => "PostValue"
  | finished => "Finished"
  | closed => "Closed"

/-- A value may come next. -/
def expectsValue : Phase → Bool
  | start | property => true
  | opened c | within c => c != .object
  | postValue | finished | closed => false

/-- The arguments of a constructor are being read. -/
def inConstructor (phase : Phase) : Bool :=
  phase == opened .constructor || phase == within .constructor

/-- The elements of an array are being read. -/
def inArray (phase : Phase) : Bool :=
  phase == opened .array || phase == within .array

end Phase

end JsonPull
