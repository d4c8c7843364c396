import ProbeSuite.Toml.Number
import ProbeSuite.Toml.Text

/-!
# Keys and values in TOML

Keys are bare or quoted, and joined by dots into paths. Values nest in arrays and inline tables, to a depth
of at most `maxDepth`; a path has at most as many keys.

* `path` : a path of keys;
* `Entries.define?` : an entry at a path, which makes the tables on the way;
* `value` : a value.
-/

namespace ProbeSuite.Toml

/-- How deeply values nest, and how many keys a path has, at most. -/
def maxDepth : Nat := 79

/-! ## Keys -/

def isBare (c : Char) : Bool := c.isAlphanum || c = '_' || c = '-'

def key (cs : List Char) : Option (Key × List Char) := do
  let (name, rest) ←
    match cs with
    | '\x22' :: rest => basicBody rest
    | '\x27' :: rest => literalBody rest
    | cs => if (cs.takeWhile isBare).isEmpty then none else some (cs.takeWhile isBare, cs.dropWhile isBare)
  some (⟨name, ⟨cs, rest⟩⟩, rest)

/-- Keys with dots between them: those before the last, and the last. Blanks may stand around each. The first
list only bounds the recursion. -/
def keysFrom : List Char → List Char → Option ((List Key × Key) × List Char)
  | [], _ => none
  | _ :: bound, cs => do
    let (k, rest) ← key (skipBlank cs)
    match skipBlank rest with
    | '.' :: rest => do
      let ((parents, last), rest) ← keysFrom bound rest
      some ((k :: parents, last), rest)
    | rest => some (([], k), rest)

/-- A path of keys, and the text after it and the blanks behind it. -/
def path (cs : List Char) : Option ((List Key × Key) × List Char) := do
  let ((parents, last), rest) ← keysFrom cs cs
  if parents.length < maxDepth then some ((parents, last), rest) else none

/-! ## Entries at paths -/

namespace Entries

/-- Changes the entries of the last of some tables. -/
def alterLast? (f : Entries → Option Entries) : List (Span × Entries) → Option (List (Span × Entries))
  | [] => none
  | [(span, es)] => do some [(span, ← f es)]
  | t :: ts => do some (t :: (← alterLast? f ts))

/-- Adds an entry where a path of dotted keys ends, below a table of the given origin. The tables on the way
are made as needed; of those that exist, ones that a header or braces made are closed, a list of tables
stands for its last one, and the path must end in a table that dots made. -/
def defineBelow? (last : Key) (v : Node) (origin : Origin) : List Key → Entries → Option Entries
  | [], es => if origin = .dotted then insert? last v es else none
  | k :: ks, es =>
    alter? k (fun
      | none => do some (.table .dotted (← defineBelow? last v .dotted ks []) none)
      | some (.table origin inner span) =>
        if origin = .implicit ∨ origin = .dotted then
          do some (.table origin (← defineBelow? last v origin ks inner) span)
        else none
      | some (.tables ts) => do some (.tables (← alterLast? (defineBelow? last v .header ks) ts))
      | some _ => none) es

/-- Adds an entry at a path of keys. A key is never given two values. -/
def define? (parents : List Key) (last : Key) (v : Node) (es : Entries) : Option Entries :=
  match parents with
  | [] => insert? last v es
  | ks => defineBelow? last v .dotted ks es

end Entries

/-! ## Values -/

/-- What reads a value off the front of a text. -/
abbrev Reader := List Char → Option (Node × List Char)

/-- The elements of an array up to its closing bracket. The first list only bounds the recursion. -/
def elementsFrom (read : Reader) : List Char → List Char → Option (List Node × List Char)
  | [], _ => none
  | _ :: bound, cs => do
    match ← skipLines cs with
    | ']' :: rest => some ([], rest)
    | cs => do
      let (v, cs) ← read cs
      match ← skipLines cs with
      | ']' :: rest => some ([v], rest)
      | ',' :: rest => do
        let (vs, rest) ← elementsFrom read bound rest
        some (v :: vs, rest)
      | _ => none

/-- A path, its value, and the blanks behind it. -/
def pair (read : Reader) (cs : List Char) : Option ((List Key × Key × Node) × List Char) := do
  let ((parents, last), rest) ← path cs
  let rest ← expect '=' rest
  let (v, rest) ← read (skipBlank rest)
  some ((parents, last, v), skipBlank rest)

/-- The entries of an inline table up to its closing brace, at least one of them, added to `es`. The first
list only bounds the recursion. -/
def pairsFrom (read : Reader) : List Char → Entries → List Char → Option (Entries × List Char)
  | [], _, _ => none
  | _ :: bound, es, cs => do
    let ((parents, last, v), cs) ← pair read cs
    let es ← es.define? parents last v
    match cs with
    | '\x7d' :: rest => some (es, rest)
    | ',' :: rest => pairsFrom read bound es rest
    | _ => none

/-- A value in which brackets and braces nest at most `levels` deep. -/
def valueWithin (levels : Nat) (cs : List Char) : Option (Node × List Char) :=
  match cs with
  | '[' :: rest =>
    match levels with
    | 0 => none
    | levels + 1 => do
      let (vs, after) ← elementsFrom (valueWithin levels) ('[' :: rest) rest
      some (.array vs ⟨cs, after⟩, after)
  | '\x7b' :: rest =>
    match levels with
    | 0 => none
    | levels + 1 => do
      let (es, after) ←
        match skipBlank rest with
        | '\x7d' :: after => some ([], after)
        | rest => pairsFrom (valueWithin levels) ('\x7b' :: rest) [] rest
      some (.table .inline es (some ⟨cs, after⟩), after)
  | cs => do
    let (s, after) ← scalar cs
    some (.scalar s ⟨cs, after⟩, after)
where
  /-- A value that holds no others. -/
  scalar (cs : List Char) : Option (Scalar × List Char) :=
    match cs with
    | 't' :: 'r' :: 'u' :: 'e' :: rest => some (.boolean true, rest)
    | 'f' :: 'a' :: 'l' :: 's' :: 'e' :: rest => some (.boolean false, rest)
    | 'i' :: _ => special false cs
    | 'n' :: _ => special false cs
    | c :: _ =>
      if c = '\x22' ∨ c = '\x27' then do
        let (s, rest) ← string cs
        some (.string s, rest)
      else number cs
    | [] => none

def value (cs : List Char) : Option (Node × List Char) := valueWithin maxDepth cs

end ProbeSuite.Toml
