/-! # Name tables

The names that properties are expected to have. A name of the table is handed out in place of an
equal name that was read, so that a table never changes what is read. -/

namespace JsonPull

/-- Distinct names, the newest first. -/
structure NameTable where
  names : List String
deriving DecidableEq, Repr

namespace NameTable

def empty : NameTable := ⟨[]⟩

def size (table : NameTable) : Nat := table.names.length

def isEmpty (table : NameTable) : Bool := table.names.isEmpty

/-- The name of the table that is equal to `name`. -/
def get? (table : NameTable) (name : String) : Option String :=
  table.names.find? (· == name)

/-- Enters a name. Answers the name of the table and whether it was there before. -/
def add (table : NameTable) (name : String) : (String × Bool) × NameTable :=
  match table.get? name with
  | some known => ((known, true), table)
  | none => ((name, false), ⟨name :: table.names⟩)

def ofList (names : List String) : NameTable :=
  names.foldl (fun table name => (table.add name).2) empty

theorem eq_of_get? {table : NameTable} {name known : String} (h : table.get? name = some known) :
    known = name := by
  simpa using List.find?_some h

theorem get?_add (table : NameTable) (name : String) :
    (table.add name).2.get? name = some name := by
  unfold add
  split
  · rename_i known h
    exact eq_of_get? h ▸ h
  · simp [get?]

end NameTable

end JsonPull
