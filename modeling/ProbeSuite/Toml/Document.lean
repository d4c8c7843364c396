import ProbeSuite.Toml.Value

/-!
# TOML documents

A document is a run of sections. The first has no header; each other one starts with the header of a table,
`[path]`, or of an element of a list of tables, `[[path]]`. Its lines give keys their values.

* `Section`, `sections` : the sections of a text;
* `Section.add?` : a table with the entries of one more section;
* `document` : the table of a text. A key that gets two values makes the text no document.
-/

namespace ProbeSuite.Toml

/-- What a header opens: a table, or one more element of a list of tables, at a path of keys. -/
structure Header where
  isElement : Bool
  parents : List Key
  last : Key
  span : Span

/-- An optional header, and values at paths. -/
structure Section where
  header : Option Header
  pairs : List (List Key × Key × Node)

/-! ## Reading -/

/-- The text after the end of a line, in front of which blanks and a comment may stand. -/
def endLine (cs : List Char) : Option (List Char) :=
  let rest :=
    match skipBlank cs with
    | '#' :: rest => comment rest
    | rest => rest
  if rest.isEmpty then some [] else newline rest

/-- The path of a header between one or two brackets, and the end of its line. -/
def header (cs : List Char) : Option (Header × List Char) :=
  match cs with
  | '[' :: '[' :: rest => do
    let ((parents, last), rest) ← path rest
    let rest ← expect ']' rest
    let rest ← expect ']' rest
    some (⟨true, parents, last, ⟨cs, rest⟩⟩, ← endLine rest)
  | '[' :: rest => do
    let ((parents, last), rest) ← path rest
    let rest ← expect ']' rest
    some (⟨false, parents, last, ⟨cs, rest⟩⟩, ← endLine rest)
  | _ => none

/-- The pairs up to the next header, and the sections from there on. The first list only bounds the
recursion. -/
def sectionsFrom : List Char → List Char → Option (List (List Key × Key × Node) × List Section)
  | [], _ => none
  | _ :: bound, cs =>
    match skipBlank cs with
    | [] => some ([], [])
    | '#' :: rest => do sectionsFrom bound (← endLine ('#' :: rest))
    | '\n' :: rest => sectionsFrom bound rest
    | '\r' :: rest => do sectionsFrom bound (← newline ('\r' :: rest))
    | '[' :: rest => do
      let (h, rest) ← header ('[' :: rest)
      let (pairs, later) ← sectionsFrom bound rest
      some ([], ⟨some h, pairs⟩ :: later)
    | cs => do
      let (p, rest) ← pair value cs
      let (pairs, later) ← sectionsFrom bound (← endLine rest)
      some (p :: pairs, later)

/-- The sections of a text, which may start with a byte order mark. -/
def sections (cs : List Char) : Option (List Section) := do
  let cs :=
    match cs with
    | '\uFEFF' :: rest => rest
    | cs => cs
  let (pairs, later) ← sectionsFrom (' ' :: cs) cs
  some (⟨none, pairs⟩ :: later)

/-! ## Assembling -/

namespace Entries

/-- Changes the entries of the table at a path of headers. Tables on the way are made as needed, and a list of
tables stands for its last one. -/
def below? (f : Entries → Option Entries) : List Key → Entries → Option Entries
  | [], es => f es
  | k :: ks, es =>
    alter? k (fun
      | none => do some (.table .implicit (← below? f ks []) none)
      | some (.table .inline _ _) => none
      | some (.table origin inner span) => do some (.table origin (← below? f ks inner) span)
      | some (.tables ts) => do some (.tables (← alterLast? (below? f ks) ts))
      | some _ => none) es

def defineAll? (pairs : List (List Key × Key × Node)) (es : Entries) : Option Entries :=
  pairs.foldlM (fun es (parents, last, v) => es.define? parents last v) es

end Entries

namespace Header

/-- Where the table of a header stands: from the header to the end of its last value. -/
def tableSpan (h : Header) (pairs : List (List Key × Key × Node)) : Span :=
  match pairs.getLast?.bind (fun (_, _, v) => v.span?) with
  | some span => ⟨h.span.start, span.stop⟩
  | none => h.span

/-- Opens a table among the entries of its parent. A table that only deeper headers made so far keeps its
entries and moves to the end. -/
def openTable? (h : Header) (pairs : List (List Key × Key × Node)) (es : Entries) : Option Entries := do
  let inner ←
    match es.get? h.last.name with
    | none => some []
    | some (.table .implicit inner _) => some inner
    | some _ => none
  let inner ← Entries.defineAll? pairs inner
  Entries.insert? h.last (.table .header inner (some (h.tableSpan pairs))) (es.erase h.last.name)

/-- Adds one more element to a list of tables. -/
def openElement? (h : Header) (pairs : List (List Key × Key × Node)) (es : Entries) : Option Entries := do
  let inner ← Entries.defineAll? pairs []
  es.alter? h.last fun
    | none => some (.tables [(h.tableSpan pairs, inner)])
    | some (.tables ts) => some (.tables (ts ++ [(h.tableSpan pairs, inner)]))
    | some _ => none

end Header

def Section.add? (s : Section) (es : Entries) : Option Entries :=
  match s.header with
  | none => es.defineAll? s.pairs
  | some h => es.below? (if h.isElement then h.openElement? s.pairs else h.openTable? s.pairs) h.parents

/-- The table of a document, if the text is one. -/
def document (cs : List Char) : Option Entries := do
  (← sections cs).foldlM (fun es s => s.add? es) []

end ProbeSuite.Toml
