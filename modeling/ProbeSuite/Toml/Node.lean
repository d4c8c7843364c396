import ProbeSuite.Binary64.Notation
import ProbeSuite.Text.Quoted

/-!
# TOML values

* `Span` : the part of a text a value was read from;
* `Key` : a key and where it stands;
* `Real` : a floating point number;
* `Scalar` : a value that holds no others;
* `Node` : any value; a table remembers how it came to be, since that decides what may still be added to it;
* `Node.span?` : where a value stands, if it stands in one place.
-/

namespace ProbeSuite.Toml

/-- A part of a text: what is unread where it starts, and where it stops. -/
structure Span where
  start : List Char
  stop : List Char

/-- A key, without its quotes, and where it stands. -/
structure Key where
  name : List Char
  span : Span

inductive Real where
  | finite (minus : Bool) (magnitude : Binary64)
  | infinite (minus : Bool)
  | nan

/-- The shortest text of a number, never with an exponent. -/
def Real.text : Real → String
  | .finite minus magnitude => (if minus then "-" else "") ++ String.ofList (magnitude.shortest .up).pointed
  | .infinite minus => if minus then "-inf" else "inf"
  | .nan => "NaN"

/-- A value that holds no others. Dates and times are only told from the rest. -/
inductive Scalar where
  | string (s : List Char)
  | integer (n : Int)
  | float (x : Real)
  | boolean (b : Bool)
  | datetime

/-- How a table came to be. -/
inductive Origin where
  /-- Between braces. -/
  | inline
  /-- By its own header. -/
  | header
  /-- By the header of a table inside it. -/
  | implicit
  /-- By a key with dots. -/
  | dotted
  deriving DecidableEq

/-- A value. The tables of a list of headers `[[...]]` each have a span. -/
inductive Node where
  | scalar (value : Scalar) (span : Span)
  | array (elements : List Node) (span : Span)
  | table (origin : Origin) (entries : List (Key × Node)) (span : Option Span)
  | tables (elements : List (Span × List (Key × Node)))

/-- The entries of a table, in document order. -/
abbrev Entries := List (Key × Node)

namespace Node

/-- Where a value stands. Tables without a header or braces of their own stand in no one place. -/
def span? : Node → Option Span
  | .scalar _ span => some span
  | .array _ span => some span
  | .table _ _ span => span
  | .tables elements =>
    match elements.head?, elements.getLast? with
    | some (first, _), some (last, _) => some ⟨first.start, last.stop⟩
    | _, _ => none

/-- How a message names a value of the wrong type. -/
def found : Node → String
  | .scalar (.string s) _ => "string " ++ Text.quoted (String.ofList s)
  | .scalar (.integer n) _ => s!"integer `{n}`"
  | .scalar (.float x) _ => s!"floating point `{x.text}`"
  | .scalar (.boolean b) _ => s!"boolean `{b}`"
  | .scalar .datetime _ => "map"
  | .array _ _ => "sequence"
  | .table _ _ _ => "map"
  | .tables _ => "sequence"

end Node

def Scalar.typeName : Scalar → String
  | .string _ => "string"
  | .integer _ => "integer"
  | .float _ => "float"
  | .boolean _ => "boolean"
  | .datetime => "datetime"

namespace Entries

def get? (name : List Char) (es : Entries) : Option Node :=
  (List.find? (fun e => e.1.name = name) es).map (·.2)

/-- The entries with `key` at the end, unless the key has a value already. -/
def insert? (key : Key) (v : Node) (es : Entries) : Option Entries :=
  if (get? key.name es).isSome then none else some (es ++ [(key, v)])

/-- The entries with the value of a key replaced by what `f` makes of it; a new key is added at the end. -/
def alter? (key : Key) (f : Option Node → Option Node) : Entries → Option Entries
  | [] => do some [(key, ← f none)]
  | (k, v) :: es =>
    if k.name = key.name then do some ((k, ← f (some v)) :: es) else do some ((k, v) :: (← alter? key f es))

def erase (name : List Char) (es : Entries) : Entries := es.filter (·.1.name ≠ name)

end Entries

end ProbeSuite.Toml
