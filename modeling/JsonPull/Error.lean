import JsonPull.Bytes.Base64
import JsonPull.Literal
import JsonPull.Phase

/-! # Failures

What can go wrong, where it was noticed, and the message that tells it. -/

namespace JsonPull

/-- The character that was not expected. -/
inductive Found where
  | char (c : Char)
  | endOfInput
deriving DecidableEq, Repr

/-- Where in the grammar a character was not expected. -/
inductive CharSite where
  | value
  | afterValue
  | afterContent
  | propertyStart
  | unquotedProperty
  | propertyColon
  | comment
  | constructor
deriving DecidableEq, Repr

/-- What was still open when the input ended. A string waits for its quote. -/
inductive EndSite where
  | value
  | string (quote : UInt8)
  | unicodeEscape
  | unquotedProperty
  | comment
  | constructor
  | bytes
deriving DecidableEq, Repr

/-- A kind of failure. Some carry a message of their own. -/
inductive ErrorKind where
  | unexpectedCharacter (site : CharSite) (found : Found)
  | unexpectedEnd (site : EndSite)
  | invalidEscape (text : String)
  | invalidLiteral (literal : Literal)
  | numberFormat (text : String)
  | invalidBytes (text : String)
  | unexpectedToken (token : Token)
  | mismatchedClose (token : Token) (container : Option Container)
  | maxDepthExceeded (limit : Nat)
  | unexpectedPhase (phase : Phase)
  | invariantViolated (text : String)
  | cancelled
  | io (text : String)
deriving DecidableEq, Repr

/-- A failure with the path, the line and the position at which it happened. -/
structure ReadError where
  kind : ErrorKind
  path : String
  line : Nat
  position : Nat
deriving DecidableEq, Repr

namespace Found

def text : Found → String
  | char c => c.toString
  | endOfInput => "end of input"

end Found

namespace CharSite

def message : CharSite → String
  | value => "Unexpected character encountered while parsing value:"
  | afterValue => "After parsing a value an unexpected character was encountered:"
  | afterContent => "Additional text encountered after finished reading JSON content:"
  | propertyStart => "Invalid property identifier character:"
  | unquotedProperty => "Invalid JavaScript property identifier character:"
  | propertyColon => "Invalid character after parsing property name. Expected ':' but got:"
  | comment => "Error parsing comment. Expected: *, got"
  | constructor => "Unexpected character while parsing constructor:"

end CharSite

namespace EndSite

def message : EndSite → String
  | value => "Unexpected end when reading JSON."
  | string quote =>
    "Unterminated string. Expected delimiter: " ++ (Char.ofNat quote.toNat).toString ++ "."
  | unicodeEscape => "Unexpected end while parsing Unicode escape sequence."
  | unquotedProperty => "Unexpected end while parsing unquoted property name."
  | comment => "Unexpected end while parsing comment."
  | constructor => "Unexpected end while parsing constructor."
  | bytes => "Unexpected end when reading bytes."

end EndSite

namespace ErrorKind

def message : ErrorKind → String
  | unexpectedCharacter site found => site.message ++ " " ++ found.text ++ "."
  | unexpectedEnd site => site.message
  | invalidEscape text => text
  | invalidLiteral literal => literal.message
  | numberFormat text => text
  | invalidBytes text => text
  | unexpectedToken token => "Unexpected token when reading bytes: " ++ token.text ++ "."
  | mismatchedClose token container =>
    "JsonToken " ++ token.text ++ " is not valid for closing JsonType " ++
      Container.optionText container ++ "."
  | maxDepthExceeded limit =>
    "The reader's MaxDepth of " ++ toString limit ++ " has been exceeded."
  | unexpectedPhase phase => "Unexpected state: " ++ phase.text ++ "."
  | invariantViolated text => "Internal invariant violated: " ++ text ++ "."
  | cancelled => "The read operation was cancelled."
  | io text => "I/O error while reading JSON: " ++ text ++ "."

end ErrorKind

namespace ReadError

def message (e : ReadError) : String :=
  e.kind.message ++ " Path '" ++ e.path ++ "', line " ++ toString e.line ++ ", position " ++
    toString e.position ++ "."

end ReadError

/-- Why a spelling is not the number that was asked for. -/
inductive NumberFault where
  | notNumber (lexeme : String)
  | notInteger (lexeme : String)
  | notDecimal (lexeme : String)
  | notDouble (lexeme : String)
  | outsideInt32 (lexeme : String)
  | tooLarge (lexeme : String)
  | strayCharacter (found : Found)
  | specialValue (literal : Literal)
  | unconvertible (target text : String)
deriving DecidableEq, Repr

namespace NumberFault

def message : NumberFault → String
  | notNumber lexeme => "Input string '" ++ lexeme ++ "' is not a valid number."
  | notInteger lexeme => "Input string '" ++ lexeme ++ "' is not a valid integer."
  | notDecimal lexeme => "Input string '" ++ lexeme ++ "' is not a valid decimal."
  | notDouble lexeme => "Input string '" ++ lexeme ++ "' is not a valid double."
  | outsideInt32 lexeme => "JSON integer " ++ lexeme ++ " is too large or small for an Int32."
  | tooLarge lexeme => "JSON integer " ++ lexeme ++ " is too large to parse."
  | strayCharacter found =>
    "Unexpected character encountered while parsing number: " ++ found.text ++ "."
  | specialValue literal => "Cannot read " ++ literal.text ++ " value."
  | unconvertible target text => "Could not convert string to " ++ target ++ ": " ++ text ++ "."

end NumberFault

/-- Why an escape of a string is none. -/
inductive EscapeFault where
  | unknown (c : Char)
  | badDigits (digits : String)
deriving DecidableEq, Repr

namespace EscapeFault

def message : EscapeFault → String
  | unknown c => "Bad JSON escape sequence: \\" ++ c.toString ++ "."
  | badDigits digits => "Invalid Unicode escape sequence: \\u" ++ digits ++ "."

end EscapeFault

/-- Why a value writes no bytes. -/
inductive BytesFault where
  | notBase64 (text : String) (fault : Base64.Fault)
  | outOfRange
deriving DecidableEq, Repr

namespace BytesFault

def message : BytesFault → String
  | notBase64 text fault =>
    "Could not decode Base64 string '" ++ text ++ "': " ++ fault.message ++ "."
  | outOfRange => "Value was either too large or too small for an unsigned byte."

end BytesFault

namespace ErrorKind

def ofNumberFault (fault : NumberFault) : ErrorKind := numberFormat fault.message

def ofEscapeFault (fault : EscapeFault) : ErrorKind := invalidEscape fault.message

def ofBytesFault (fault : BytesFault) : ErrorKind := invalidBytes fault.message

end ErrorKind

end JsonPull
