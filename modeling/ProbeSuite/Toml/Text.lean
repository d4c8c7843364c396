import ProbeSuite.Text.Characters

/-!
# Strings and comments in TOML

A basic string stands between double quotes and knows escapes, a literal one between apostrophes and knows
none; either may stand on several lines between three such marks. Control characters other than tabs never
stand in a text, and a carriage return only in front of a line feed.

* `skipBlank`, `newline`, `comment` : what stands between tokens;
* `basicBody`, `literalBody` : strings on one line;
* `longBody` : strings of both kinds on several lines;
* `string` : a string of any kind.
-/

namespace ProbeSuite.Toml

/-- Spaces and tabs. -/
def isBlank (c : Char) : Bool := c = ' ' || c = '\t'

def skipBlank (cs : List Char) : List Char := cs.dropWhile isBlank

/-- Characters that may stand in strings and comments. -/
def isPlain (c : Char) : Bool := c = '\t' || (' ' ≤ c && c ≠ '\x7f')

def newline : List Char → Option (List Char)
  | '\n' :: rest => some rest
  | '\r' :: '\n' :: rest => some rest
  | _ => none

/-- The text after a comment, whose `#` was read. -/
def comment (cs : List Char) : List Char := cs.dropWhile isPlain

/-- What stands before an element of an array: blanks, line ends, and comments up to a line end. The first
list only bounds the recursion. -/
def skipLinesFrom : List Char → List Char → Option (List Char)
  | [], cs => some cs
  | _ :: bound, cs =>
    match skipBlank cs with
    | '#' :: rest => do skipLinesFrom bound (← newline (comment rest))
    | '\n' :: rest => skipLinesFrom bound rest
    | '\r' :: rest => do skipLinesFrom bound (← newline ('\r' :: rest))
    | cs => some cs

def skipLines (cs : List Char) : Option (List Char) := skipLinesFrom cs cs

/-! ## Escapes -/

/-- The number in the next `count` hexadecimal digits. -/
def hexNumber : (count value : Nat) → List Char → Option (Nat × List Char)
  | 0, value, cs => some (value, cs)
  | count + 1, value, c :: cs => do hexNumber count (value * 16 + (← Text.hexDigit? c)) cs
  | _ + 1, _, [] => none

/-- The character with a code point in `count` hexadecimal digits. -/
def codePoint (count : Nat) (cs : List Char) : Option (Char × List Char) := do
  let (n, rest) ← hexNumber count 0 cs
  if n < 0xD800 ∨ (0xDFFF < n ∧ n < 0x110000) then some (Char.ofNat n, rest) else none

/-- The character of an escape, after its backslash. -/
def unescape : List Char → Option (Char × List Char)
  | 'b' :: rest => some ('\x08', rest)
  | 'f' :: rest => some ('\x0c', rest)
  | 'n' :: rest => some ('\n', rest)
  | 'r' :: rest => some ('\r', rest)
  | 't' :: rest => some ('\t', rest)
  | '\x22' :: rest => some ('\x22', rest)
  | '\\' :: rest => some ('\\', rest)
  | 'u' :: rest => codePoint 4 rest
  | 'U' :: rest => codePoint 8 rest
  | _ => none

/-! ## Strings on one line -/

/-- A string up to its closing quote. The first list only bounds the recursion. -/
def basicFrom : List Char → List Char → Option (List Char × List Char)
  | _, [] => none
  | [], _ => none
  | _ :: bound, c :: rest =>
    if c = '\x22' then some ([], rest)
    else if c = '\\' then do
      let (d, rest) ← unescape rest
      let (ds, rest) ← basicFrom bound rest
      some (d :: ds, rest)
    else if isPlain c then do
      let (ds, rest) ← basicFrom bound rest
      some (c :: ds, rest)
    else none

def basicBody (cs : List Char) : Option (List Char × List Char) := basicFrom cs cs

/-- A string up to its closing apostrophe. -/
def literalBody : List Char → Option (List Char × List Char)
  | [] => none
  | c :: rest =>
    if c = '\x27' then some ([], rest)
    else if isPlain c then do
      let (ds, rest) ← literalBody rest
      some (c :: ds, rest)
    else none

/-! ## Strings on several lines -/

/-- The number of marks at the start, and the text after them. -/
def countMarks (mark : Char) (cs : List Char) : Nat × List Char :=
  ((cs.takeWhile (· = mark)).length, cs.dropWhile (· = mark))

/-- The text after blanks and at least one line end, which a backslash takes out of a string. -/
def lineJoin (cs : List Char) : Option (List Char) := do
  let rest ← newline (skipBlank cs)
  some (skipEmpty rest rest)
where
  /-- The text after blanks and line ends. The first list only bounds the recursion. -/
  skipEmpty : List Char → List Char → List Char
    | [], cs => cs
    | _ :: bound, cs =>
      match newline (skipBlank cs) with
      | some rest => skipEmpty bound rest
      | none => skipBlank cs

/-- A string up to its three closing marks; up to two marks may stand anywhere in it, also in front of the
closing ones. Line ends are single line feeds. The first list only bounds the recursion. -/
def longFrom (mark : Char) (escapes : Bool) : List Char → List Char → Option (List Char × List Char)
  | _, [] => none
  | [], _ => none
  | _ :: bound, c :: rest =>
    if c = mark then
      let (count, after) := countMarks mark (c :: rest)
      if count < 3 then do
        let (ds, rest) ← longFrom mark escapes bound after
        some (List.replicate count mark ++ ds, rest)
      else if count ≤ 5 then some (List.replicate (count - 3) mark, after)
      else none
    else if c = '\\' ∧ escapes then
      match lineJoin rest with
      | some rest => longFrom mark escapes bound rest
      | none => do
        let (d, rest) ← unescape rest
        let (ds, rest) ← longFrom mark escapes bound rest
        some (d :: ds, rest)
    else if isPlain c then do
      let (ds, rest) ← longFrom mark escapes bound rest
      some (c :: ds, rest)
    else do
      let rest ← newline (c :: rest)
      let (ds, rest) ← longFrom mark escapes bound rest
      some ('\n' :: ds, rest)

/-- A string after its three opening marks; a line end right after them does not count. -/
def longBody (mark : Char) (escapes : Bool) (cs : List Char) : Option (List Char × List Char) :=
  let cs := (newline cs).getD cs
  longFrom mark escapes cs cs

/-- A string of any kind. -/
def string (cs : List Char) : Option (List Char × List Char) :=
  match cs with
  | '\x22' :: '\x22' :: '\x22' :: rest => longBody '\x22' true rest
  | '\x22' :: rest => basicBody rest
  | '\x27' :: '\x27' :: '\x27' :: rest => longBody '\x27' false rest
  | '\x27' :: rest => literalBody rest
  | _ => none

end ProbeSuite.Toml
