/-! # Tokens

The kinds of tokens that a reader stops at. Containers open and close; a scalar is a whole value. -/

namespace JsonPull

/-- What may hold other values. A constructor is written `new Name(…)`. -/
inductive Container where
  | object
  | array
  | constructor
deriving DecidableEq, Repr

/-- The kinds of values that hold no others. -/
inductive Scalar where
  | string
  | integer
  | float
  | boolean
  | null
  | undefined
  | date
  | bytes
deriving DecidableEq, Repr

/-- The kind of the token a reader stands on; `none` before the first one and after the last. -/
inductive Token where
  | none
  | opening (container : Container)
  | closing (container : Container)
  | propertyName
  | scalar (kind : Scalar)
  | comment
deriving DecidableEq, Repr

namespace Container

def text : Container → String
  | object => "Object"
  | array => "Array"
  | constructor => "Constructor"

/-- The name of a container, or of having none. -/
def optionText : Option Container → String
  | some c => c.text
  | none => "None"

end Container

namespace Scalar

def text : Scalar → String
  | string => "String"
  | integer => "Integer"
  | float => "Float"
  | boolean => "Boolean"
  | null => "Null"
  | undefined => "Undefined"
  | date => "Date"
  | bytes => "Bytes"

end Scalar

namespace Token

def text : Token → String
  | none => "None"
  | opening c => "Start" ++ c.text
  | closing c => "End" ++ c.text
  | propertyName => "PropertyName"
  | scalar s => s.text
  | comment => "Comment"

/-- Opens a container. -/
def isStart : Token → Bool
  | opening _ => true
  | _ => false

/-- Closes a container. -/
def isEnd : Token → Bool
  | closing _ => true
  | _ => false

/-- Is a whole value. -/
def isPrimitive : Token → Bool
  | scalar _ => true
  | _ => false

/-- All kinds of tokens. -/
def all : List Token :=
  [none, opening .object, closing .object, opening .array, closing .array, opening .constructor,
   closing .constructor, propertyName, scalar .string, scalar .integer, scalar .float,
   scalar .boolean, scalar .null, scalar .undefined, scalar .date, scalar .bytes, comment]

theorem mem_all (t : Token) : t ∈ all := by
  cases t with
  | opening c => cases c <;> decide
  | closing c => cases c <;> decide
  | scalar s => cases s <;> decide
  | _ => decide

/-- The kind of token with a given name. -/
def ofText? (name : String) : Option Token :=
  all.find? (·.text == name)

end Token

end JsonPull
