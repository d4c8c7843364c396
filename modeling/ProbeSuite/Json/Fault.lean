import ProbeSuite.IoError
import ProbeSuite.Timestamp.Reader
import ProbeSuite.Text.Quoted
import ProbeSuite.Binary64.Notation

/-!
# What goes wrong with JSON

A reader fails with a `Fault`: a reason, and what was left unread. The place in the text follows from that
once the whole text is at hand, so readers carry no positions. A printer fails with the error of its output.

* `Found` : what stands where something else was expected;
* `Reason`, `Reason.message` : the reasons and their wording;
* `Fault.at`, `Fault.past` : a fault in front of, or one byte into, what is unread;
* `Position` : lines from 1, and bytes since the line began;
* `Located`, `Fault.locate` : a fault with its position in the text;
* `Error` : an error of input or output, or a text that is refused; `Error.toIo` : either as the first.
-/

namespace ProbeSuite.Json

/-- What stands where something else was expected. -/
inductive Found where
  | null
  | boolean (b : Bool)
  | integer (n : Int)
  | float (negative : Bool) (magnitude : Binary64)
  | string (s : String)
  | sequence
  | map
  deriving DecidableEq

def Found.text : Found → String
  | .null => "null"
  | .boolean b => s!"boolean `{b}`"
  | .integer n => s!"integer `{n}`"
  | .float negative magnitude =>
    "floating point `" ++ (if negative then "-" else "") ++ String.ofList (magnitude.shortest .even).scientific ++ "`"
  | .string s => "string " ++ Text.quoted s
  | .sequence => "sequence"
  | .map => "map"

/-- Why a text is refused. -/
inductive Reason where
  | eofValue
  | eofString
  | eofList
  | eofObject
  | expectedValue
  | expectedIdent
  | expectedCommaOrBracket
  | expectedCommaOrBrace
  | expectedColon
  | keyNotString
  | trailingComma
  | trailingCharacters
  | invalidNumber
  | numberOutOfRange
  | invalidEscape
  | unpairedSurrogate
  | loneSurrogate
  | controlCharacter
  | missingField (name : String)
  | duplicateField (name : String)
  | unknownVariant (name : String) (known : List String)
  | invalidType (found : Found) (expected : String)
  | invalidValue (found : Found) (expected : String)
  | invalidLength (length : Nat) (record : String) (fields : Nat)
  | badTimestamp (fault : Timestamp.Fault)
  deriving DecidableEq

def Reason.message : Reason → String
  | .eofValue => "EOF while parsing a value"
  | .eofString => "EOF while parsing a string"
  | .eofList => "EOF while parsing a list"
  | .eofObject => "EOF while parsing an object"
  | .expectedValue => "expected value"
  | .expectedIdent => "expected ident"
  | .expectedCommaOrBracket => "expected `,` or `]`"
  | .expectedCommaOrBrace => "expected `,` or `\x7d`"
  | .expectedColon => "expected `:`"
  | .keyNotString => "key must be a string"
  | .trailingComma => "trailing comma"
  | .trailingCharacters => "trailing characters"
  | .invalidNumber => "invalid number"
  | .numberOutOfRange => "number out of range"
  | .invalidEscape => "invalid escape"
  | .unpairedSurrogate => "unexpected end of hex escape"
  | .loneSurrogate => "lone leading surrogate in hex escape"
  | .controlCharacter => "control character (\\u0000-\\u001F) found while parsing a string"
  | .missingField name => s!"missing field `{name}`"
  | .duplicateField name => s!"duplicate field `{name}`"
  | .unknownVariant name known =>
    s!"unknown variant `{name}`, expected one of " ++ ", ".intercalate (known.map fun k => s!"`{k}`")
  | .invalidType found expected => s!"invalid type: {found.text}, expected {expected}"
  | .invalidValue found expected => s!"invalid value: {found.text}, expected {expected}"
  | .invalidLength length record fields =>
    s!"invalid length {length}, expected struct {record} with {fields} elements"
  | .badTimestamp fault => fault.message

/-- A reason, what was unread, and how many bytes into it the fault lies. -/
structure Fault where
  reason : Reason
  unread : List Char
  bytes : Nat
  deriving DecidableEq

/-- A fault in front of what is unread. -/
def Fault.at (reason : Reason) (unread : List Char) : Fault := ⟨reason, unread, 0⟩

/-- A fault in the first byte of what is unread. -/
def Fault.past (reason : Reason) (unread : List Char) : Fault := ⟨reason, unread, 1⟩

/-- A line, from 1, and the bytes read since it began. -/
structure Position where
  line : Nat
  column : Nat
  deriving DecidableEq

namespace Position

def start : Position := ⟨1, 0⟩

def advance (p : Position) (c : Char) : Position :=
  if c = '\n' then ⟨p.line + 1, 0⟩ else ⟨p.line, p.column + c.utf8Size⟩

/-- The position `bytes` bytes further into the text, or at its end. -/
def forward : List Char → (bytes : Nat) → Position → Position
  | [], _, p => p
  | c :: cs, bytes, p =>
    if c.utf8Size ≤ bytes then forward cs (bytes - c.utf8Size) (p.advance c) else ⟨p.line, p.column + bytes⟩

end Position

structure Located where
  reason : Reason
  position : Position
  deriving DecidableEq

def Located.message (l : Located) : String :=
  s!"{l.reason.message} at line {l.position.line} column {l.position.column}"

/-- The fault with its position in the text it was found in. -/
def Fault.locate (text : List Char) (f : Fault) : Located :=
  let read := text.take (text.length - f.unread.length)
  ⟨f.reason, Position.forward f.unread f.bytes (read.foldl Position.advance .start)⟩

def Reason.isEof : Reason → Bool
  | .eofValue | .eofString | .eofList | .eofObject => true
  | _ => false

inductive Error where
  | io (error : IoError)
  | refused (fault : Located)
  deriving DecidableEq

namespace Error

def isIo : Error → Bool
  | .io _ => true
  | .refused _ => false

def message : Error → String
  | .io error => error.message
  | .refused fault => fault.message

/-- The error as one of input or output. One that comes from there is itself again. -/
def toIo : Error → IoError
  | .io error => error
  | .refused fault =>
    .described (if fault.reason.isEof then .unexpectedEof else .invalidData) fault.message

end Error

end ProbeSuite.Json
