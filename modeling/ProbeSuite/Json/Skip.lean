import ProbeSuite.Json.Number
import ProbeSuite.Json.Text

/-!
# Values that nobody reads

The value of an unknown member is passed over, however deeply it nests, without being built. Its brackets
must match and its tokens must be well formed; a stack holds the brackets that are open.

* `skipBlank` : the text after spaces, tabs and line ends;
* `word` : the rest of `null`, `true` or `false`;
* `memberStart` : what stands before a value in a list or an object;
* `closeBrackets` : what stands after a value, up to the next one;
* `skipValue` : the text after a value.
-/

namespace ProbeSuite.Json

/-- The four blank characters. -/
def isBlank (c : Char) : Bool := c = ' ' || c = '\n' || c = '\t' || c = '\r'

def skipBlank (cs : List Char) : List Char := cs.dropWhile isBlank

/-- The text after the given letters. -/
def word : (letters : List Char) → List Char → Except Fault (List Char)
  | [], cs => .ok cs
  | _ :: _, [] => .error (.at .eofValue [])
  | l :: ls, c :: cs => if c = l then word ls cs else .error (.past .expectedIdent (c :: cs))

/-- The text after the colon between a key and its value. -/
def colon (cs : List Char) : Except Fault (List Char) :=
  match skipBlank cs with
  | ':' :: rest => .ok rest
  | [] => .error (.at .eofObject [])
  | cs => .error (.past .expectedColon cs)

/-- A bracket that is open. -/
inductive Bracket where
  | list
  | object
  deriving DecidableEq

namespace Bracket

def closer : Bracket → Char
  | .list => ']'
  | .object => '\x7d'

/-- The reason when the text ends inside it. -/
def eof : Bracket → Reason
  | .list => .eofList
  | .object => .eofObject

/-- The reason when neither a comma nor its closer follows a value. -/
def unclosed : Bracket → Reason
  | .list => .expectedCommaOrBracket
  | .object => .expectedCommaOrBrace

end Bracket

/-- The text after what precedes a value: in an object, a key and a colon. -/
def memberStart : Bracket → List Char → Except Fault (List Char)
  | .list, cs => .ok cs
  | .object, cs =>
    match skipBlank cs with
    | '\x22' :: rest => do colon (← skipString rest)
    | [] => .error (.at .eofObject [])
    | cs => .error (.past .keyNotString cs)

/-- What follows a value inside the open brackets: those that close here are dropped, and if any is left,
the text stands in front of the next value. -/
def closeBrackets : List Bracket → List Char → Except Fault (List Bracket × List Char)
  | [], cs => .ok ([], cs)
  | b :: outer, cs =>
    match skipBlank cs with
    | [] => .error (.at b.eof [])
    | c :: rest =>
      if c = ',' then do .ok (b :: outer, ← memberStart b rest)
      else if c = b.closer then closeBrackets outer rest
      else .error (.past b.unclosed (c :: rest))

/-- The inside of a bracket that was just opened: it closes at once, or a value follows. -/
def openBracket (b : Bracket) (outer : List Bracket) (cs : List Char) :
    Except Fault (List Bracket × List Char) :=
  match skipBlank cs with
  | [] => .error (.at b.eof [])
  | c :: rest =>
    if c = b.closer then closeBrackets outer rest
    else do .ok (b :: outer, ← memberStart b (c :: rest))

/-- The next token of a value, and the brackets that are open after it. -/
def skipToken (stack : List Bracket) (cs : List Char) : Except Fault (List Bracket × List Char) :=
  match skipBlank cs with
  | [] => .error (.at .eofValue [])
  | '[' :: rest => openBracket .list stack rest
  | '\x7b' :: rest => openBracket .object stack rest
  | 'n' :: rest => do closeBrackets stack (← word ['u', 'l', 'l'] rest)
  | 't' :: rest => do closeBrackets stack (← word ['r', 'u', 'e'] rest)
  | 'f' :: rest => do closeBrackets stack (← word ['a', 'l', 's', 'e'] rest)
  | '\x22' :: rest => do closeBrackets stack (← skipString rest)
  | '-' :: rest => do closeBrackets stack (← skipNumber rest)
  | c :: rest =>
    if c.isDigit then do closeBrackets stack (← skipNumber (c :: rest))
    else .error (.past .expectedValue (c :: rest))

/-- The text after a value inside open brackets. The first list only bounds the recursion: every step reads
a character, so the text itself is long enough. -/
def skipValueFrom : List Char → List Bracket → List Char → Except Fault (List Char)
  | [], _, cs => .error (.at .eofValue cs)
  | _ :: bound, stack, cs => do
    let (stack, rest) ← skipToken stack cs
    if stack.isEmpty then .ok rest else skipValueFrom bound stack rest

def skipValue (cs : List Char) : Except Fault (List Char) :=
  if (skipBlank cs).isEmpty then .error (.at .eofValue []) else skipValueFrom cs [] cs

end ProbeSuite.Json
