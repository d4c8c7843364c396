import ProbeSuite.Json.Skip

/-!
# Reading typed values

A reader takes the text in front of a value and gives the value and the text after it. It knows the type it
wants, and a value of another type is reported with what was found.

* `mismatch` : the fault for a value of the wrong type;
* `natural`, `string`, `timestamp`, `array` : the readers of plain types;
* `nextElement`, `endList` : what stands between the elements of a list, and after the last;
* `variant` : a value that goes by a name, bare or as the key of `null`;
* `decode` : the value that a whole text holds.
-/

namespace ProbeSuite.Json

/-- A value read off the front of a text, and the rest of the text. -/
abbrev Reader (α : Type) := List Char → Except Fault (α × List Char)

/-- The fault when a value of another type than `expected` comes first in the text. The value is read to its
end, so that its own faults come first; only lists and objects are not. -/
def mismatch (expected : String) (cs : List Char) : Fault :=
  let result : Except Fault (Found × List Char) :=
    match cs with
    | 'n' :: rest => do .ok (.null, ← word ['u', 'l', 'l'] rest)
    | 't' :: rest => do .ok (.boolean true, ← word ['r', 'u', 'e'] rest)
    | 'f' :: rest => do .ok (.boolean false, ← word ['a', 'l', 's', 'e'] rest)
    | '-' :: rest => do
      let (n, rest) ← Number.read true rest
      .ok (n.found, rest)
    | '\x22' :: rest => do
      let (s, rest) ← stringBody rest
      .ok (.string (String.ofList s), rest)
    | '[' :: rest => .ok (.sequence, '[' :: rest)
    | '\x7b' :: rest => .ok (.map, '\x7b' :: rest)
    | cs =>
      if startsWithDigit cs then do
        let (n, rest) ← Number.read false cs
        .ok (n.found, rest)
      else .error (.past .expectedValue cs)
  match result with
  | .ok (found, rest) => .at (.invalidType found expected) rest
  | .error fault => fault

/-! ## Plain types -/

/-- The type of the number `n` among the words of `bits` bits. -/
def ofNumber (bits : Nat) (expected : String) (n : Number) (cs : List Char) : Except Fault (Nat × List Char) :=
  match n with
  | .natural n => if n < 2 ^ bits then .ok (n, cs) else .error (.at (.invalidValue (.integer n) expected) cs)
  | .negative n => .error (.at (.invalidValue (.integer (-n)) expected) cs)
  | n => .error (.at (.invalidType n.found expected) cs)

/-- A word of `bits` bits. -/
def natural (bits : Nat) (expected : String) (cs : List Char) : Except Fault (Nat × List Char) :=
  match skipBlank cs with
  | [] => .error (.at .eofValue [])
  | '-' :: rest => do
    let (n, rest) ← Number.read true rest
    ofNumber bits expected n rest
  | cs =>
    if startsWithDigit cs then do
      let (n, rest) ← Number.read false cs
      ofNumber bits expected n rest
    else .error (mismatch expected cs)

def characters (expected : String) (cs : List Char) : Except Fault (List Char × List Char) :=
  match skipBlank cs with
  | [] => .error (.at .eofValue [])
  | '\x22' :: rest => stringBody rest
  | cs => .error (mismatch expected cs)

def string (cs : List Char) : Except Fault (String × List Char) := do
  let (s, rest) ← characters "a string" cs
  .ok (String.ofList s, rest)

/-- A string that is a timestamp. -/
def timestamp (cs : List Char) : Except Fault (Timestamp × List Char) := do
  let (s, rest) ← characters "an RFC 3339 formatted date and time string" cs
  match Timestamp.read s with
  | .ok t => .ok (t, rest)
  | .error fault => .error (.at (.badTimestamp fault) rest)

/-! ## Lists -/

/-- The text in front of the next element of a list; there is none in front of the closing bracket. -/
def nextElement (first : Bool) (cs : List Char) : Except Fault (Option (List Char)) :=
  match skipBlank cs with
  | [] => .error (.at .eofList [])
  | ']' :: _ => .ok none
  | c :: rest =>
    if first then .ok (some (c :: rest))
    else if c = ',' then
      match skipBlank rest with
      | [] => .error (.at .eofValue [])
      | ']' :: rest => .error (.past .trailingComma (']' :: rest))
      | cs => .ok (some cs)
    else .error (.past .expectedCommaOrBracket (c :: rest))

def endList (cs : List Char) : Except Fault (List Char) :=
  match skipBlank cs with
  | [] => .error (.at .eofList [])
  | ']' :: rest => .ok rest
  | ',' :: rest =>
    match skipBlank rest with
    | ']' :: rest => .error (.past .trailingComma (']' :: rest))
    | cs => .error (.past .trailingCharacters cs)
  | cs => .error (.past .trailingCharacters cs)

/-- The elements up to the closing bracket. The first list only bounds the recursion: every element has a
character, so the text itself is long enough. -/
def elementsFrom {α : Type} (read : Reader α) :
    (bound : List Char) → (first : Bool) → List Char → Except Fault (List α × List Char)
  | [], _, cs => .error (.at .eofList cs)
  | _ :: bound, first, cs => do
    match ← nextElement first cs with
    | none => .ok ([], cs)
    | some cs =>
      let (a, cs) ← read cs
      let (as, cs) ← elementsFrom read bound false cs
      .ok (a :: as, cs)

def array {α : Type} (read : Reader α) (cs : List Char) : Except Fault (List α × List Char) :=
  match skipBlank cs with
  | [] => .error (.at .eofValue [])
  | '[' :: rest => do
    let (as, rest) ← elementsFrom read ('[' :: rest) true rest
    .ok (as, ← endList rest)
  | cs => .error (mismatch "a sequence" cs)

/-! ## Names of values -/

/-- The value of a name, or the fault that there is none; `cs` follows the name. -/
def named {α : Type} (known : List String) (ofName? : String → Option α) (name cs : List Char) :
    Except Fault α :=
  match ofName? (String.ofList name) with
  | some a => .ok a
  | none => .error (.at (.unknownVariant (String.ofList name) known) cs)

def null (cs : List Char) : Except Fault (List Char) :=
  match skipBlank cs with
  | [] => .error (.at .eofValue [])
  | 'n' :: rest => word ['u', 'l', 'l'] rest
  | cs => .error (mismatch "unit" cs)

/-- A name of a value, either bare or as the only key of an object, with the value `null`. -/
def variant {α : Type} (known : List String) (ofName? : String → Option α) (cs : List Char) :
    Except Fault (α × List Char) :=
  match skipBlank cs with
  | [] => .error (.at .eofValue [])
  | '\x22' :: rest => do
    let (name, rest) ← stringBody rest
    .ok (← named known ofName? name rest, rest)
  | '\x7b' :: rest => do
    let (name, rest) ←
      match skipBlank rest with
      | [] => .error (.at .eofValue [])
      | '\x22' :: rest => stringBody rest
      | '\x7d' :: rest => .error (.past .expectedValue ('\x7d' :: rest))
      | cs => .error (.past .keyNotString cs)
    let a ← named known ofName? name rest
    let rest ← null (← colon rest)
    match skipBlank rest with
    | [] => .error (.at .eofObject [])
    | '\x7d' :: rest => .ok (a, rest)
    | cs => .error (.at .expectedValue cs)
  | cs => .error (.past .expectedValue cs)

/-! ## Whole texts -/

/-- The value of a text in which only blanks follow it. -/
def whole {α : Type} (read : Reader α) (cs : List Char) : Except Fault α := do
  let (a, rest) ← read cs
  match skipBlank rest with
  | [] => .ok a
  | rest => .error (.past .trailingCharacters rest)

/-- The value that a text holds, or why and where it holds none. -/
def decode {α : Type} (read : Reader α) (text : String) : Except Located α :=
  match whole read text.toList with
  | .ok a => .ok a
  | .error fault => .error (fault.locate text.toList)

end ProbeSuite.Json
