import JsonPull.Token

/-! # Open containers and paths

Each open container knows which of its parts is being read. Together they make the path of the
current token, such as `a.b[0]` or `['x y'][2]`. -/

namespace JsonPull

/-- An open container with the name or the index of its current part. The index is -1 before the
first element. -/
inductive Frame where
  | object (name : Option String)
  | array (index : Int)
  | constructor (index : Int)
deriving DecidableEq, Repr

namespace Frame

/-- A container that has just been opened. -/
def fresh : Container → Frame
  | .object => object none
  | .array => array (-1)
  | .constructor => constructor (-1)

def kind : Frame → Container
  | object _ => .object
  | array _ => .array
  | constructor _ => .constructor

/-- Moves to the next element; the parts of an object are not counted. -/
def advance : Frame → Frame
  | object name => object name
  | array i => array (i + 1)
  | constructor i => constructor (i + 1)

/-- Moves to the property of a name; elements have none. -/
def rename (name : String) : Frame → Frame
  | object _ => object (some name)
  | array i => array i
  | constructor i => constructor i

/-- A character that cannot stand in a name without brackets around it. -/
def needsBrackets (c : Char) : Bool :=
  c ∈ ['.', ' ', '\x27', '/', '"', '[', ']', '(', ')', '\t', '\n', '\r', '\x0c', '\x08', '\\',
    '\u0085', '\u2028', '\u2029']

/-- A character of a name between brackets and quotes. -/
def escapeChar (c : Char) : List Char :=
  if c = '\x27' ∨ c = '\\' then ['\\', c] else [c]

/-- A name as the next step after the path so far. -/
def nameStep (path : String) (name : String) : String :=
  if name.toList.any needsBrackets then
    "[\x27" ++ String.ofList (name.toList.flatMap escapeChar) ++ "\x27]"
  else if path.isEmpty then name
  else "." ++ name

/-- The path of the current part of a container at `path`. -/
def extend (path : String) : Frame → String
  | object none => path
  | object (some name) => path ++ nameStep path name
  | array i | constructor i => path ++ "[" ++ toString i ++ "]"

/-- The path through containers, the outermost first. -/
def path (frames : List Frame) : String :=
  frames.foldl extend ""

@[simp] theorem kind_fresh (c : Container) : (fresh c).kind = c := by cases c <;> rfl

@[simp] theorem kind_advance (f : Frame) : f.advance.kind = f.kind := by cases f <;> rfl

@[simp] theorem kind_rename (name : String) (f : Frame) : (f.rename name).kind = f.kind := by
  cases f <;> rfl

theorem path_append (xs ys : List Frame) : path (xs ++ ys) = ys.foldl extend (path xs) := by
  simp [path]

end Frame

end JsonPull
