import ProbeSuite.Toml.Document
import ProbeSuite.Toml.Excerpt

/-!
# Configurations

A configuration says how a report is written and whether and how many reports are kept. Its file is a TOML
document, of which three keys count; a key that is not there leaves the default.

* `Config` : the settings, `Config.default` where nothing is set;
* `Config.isValid` : the limits on the length of a history;
* `Config.ofEntries` : the settings in a table;
* `Config.read`, `Config.toml?` : from a text and to one.
-/

namespace ProbeSuite

inductive Output where
  /-- Line by line, as the probes run. -/
  | text
  /-- As one JSON document, after the last probe. -/
  | json
  deriving DecidableEq, Inhabited

def Output.name : Output → String
  | .text => "text"
  | .json => "json"

def Output.ofName? (name : List Char) : Option Output :=
  [Output.text, Output.json].find? (·.name.toList = name)

structure Config where
  output : Output
  recordHistory : Bool
  historyLimit : UInt64
  deriving DecidableEq

namespace Config

/-- The length of a history that no one has chosen. -/
def defaultLimit : UInt64 := 100

def maxLimit : UInt64 := 10000

/-- A text report, and no history. -/
def default : Config := ⟨.text, false, defaultLimit⟩

instance : Inhabited Config := ⟨default⟩

def isValid (c : Config) : Bool := 0 < c.historyLimit && c.historyLimit ≤ maxLimit

/-! ## Reading -/

/-- Why a value does not fit its key. -/
inductive Misfit where
  | wrongType (found expected : String)
  | negative (n : Int)
  | unknownOutput (name : String)
  | noElement
  | manyElements
  | notStringOrTable
  | fullTable
  | fullList
  | notTable (found : String)
  deriving DecidableEq

def Misfit.message : Misfit → String
  | .wrongType found expected => s!"invalid type: {found}, expected {expected}"
  | .negative n => s!"invalid value: integer `{n}`, expected usize"
  | .unknownOutput name => s!"unknown variant `{name}`, expected `text` or `json`"
  | .noElement => "wanted exactly 1 element, found 0 elements"
  | .manyElements => "wanted exactly 1 element, more than 1 element"
  | .notStringOrTable => "wanted string or table"
  | .fullTable => "expected empty table"
  | .fullList => "expected empty array"
  | .notTable found => s!"expected table, found {found}"

/-- Why a text is no configuration. -/
inductive ReadFault where
  /-- It is no TOML document. -/
  | malformed
  /-- A value does not fit. -/
  | misfit (reason : Misfit) (place : Toml.Excerpt)
  deriving DecidableEq

/-- The message of a fault; faults in the grammar are not told apart. -/
def ReadFault.message : ReadFault → String
  | .malformed => "<TOML syntax error>"
  | .misfit reason place => place.text ++ reason.message ++ "\n"

open Toml (Node Key Span Entries)

/-- A misfit and where it stands, if a value of its own does not. -/
abbrev Decoded (α : Type) := Except (Misfit × Option Span) α

def boolean (v : Node) : Decoded Bool :=
  match v with
  | .scalar (.boolean b) _ => .ok b
  | v => .error (.wrongType v.found "a boolean", v.span?)

def limit (v : Node) : Decoded UInt64 :=
  match v with
  | .scalar (.integer n) _ => if 0 ≤ n then .ok (UInt64.ofNat n.toNat) else .error (.negative n, v.span?)
  | v => .error (.wrongType v.found "usize", v.span?)

def outputNamed (name : List Char) (span : Span) : Decoded Output :=
  match Output.ofName? name with
  | some o => .ok o
  | none => .error (.unknownOutput (String.ofList name), some span)

/-- A value that says no more than its key: a table or an array without entries. -/
def nothing (v : Node) : Decoded Unit :=
  match v with
  | .array [] _ => .ok ()
  | .table _ [] _ => .ok ()
  | .tables [] => .ok ()
  | .array _ _ => .error (.fullTable, v.span?)
  | .table _ _ _ => .error (.fullTable, v.span?)
  | .tables _ => .error (.fullList, v.span?)
  | .scalar s _ => .error (.notTable s.typeName, v.span?)

/-- An output, by its name or by a table with that name as its only key and nothing in it. -/
def outputOf (v : Node) : Decoded Output :=
  match v with
  | .scalar (.string s) span => outputNamed s span
  | .table _ [] span => .error (.noElement, span)
  | .table _ [(k, inner)] _ => do
    let o ← outputNamed k.name k.span
    let _ ← nothing inner
    .ok o
  | .table _ _ span => .error (.manyElements, span)
  | v => .error (.notStringOrTable, v.span?)

/-- The configuration after one more entry of the document; other keys have no meaning. -/
def set (c : Config) (k : Key) (v : Node) : Decoded Config :=
  if k.name = "output".toList then do .ok { c with output := ← outputOf v }
  else if k.name = "record_history".toList then do .ok { c with recordHistory := ← boolean v }
  else if k.name = "history_limit".toList then do .ok { c with historyLimit := ← limit v }
  else .ok c

/-- The configuration after one more entry, or a misfit that has a place: its own, that of the value, or that
of the key. -/
def setAt (c : Config) (entry : Key × Node) : Except (Misfit × Span) Config :=
  match c.set entry.1 entry.2 with
  | .ok c => .ok c
  | .error (reason, span) => .error (reason, ((span <|> entry.2.span?)).getD entry.1.span)

def ofEntries (es : Entries) : Except (Misfit × Span) Config := es.foldlM setAt default

def read (text : String) : Except ReadFault Config :=
  match Toml.document text.toList with
  | none => .error .malformed
  | some es =>
    match ofEntries es with
    | .ok c => .ok c
    | .error (reason, span) => .error (.misfit reason (.ofSpan text.toList span))

/-! ## Writing -/

/-- A document with all three keys. There is none for a limit beyond the integers of TOML. -/
def toml? (c : Config) : Option String :=
  if c.historyLimit.toNat < 2 ^ 63 then
    some (s!"output = \"{c.output.name}\"\nrecord_history = {c.recordHistory}\n" ++
      s!"history_limit = {c.historyLimit.toNat}\n")
  else none

end Config

end ProbeSuite
