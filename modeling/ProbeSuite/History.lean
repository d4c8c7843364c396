import ProbeSuite.Event
import ProbeSuite.Failure
import ProbeSuite.Files
import ProbeSuite.Json.Printer
import ProbeSuite.Report.Stored

/-!
# Histories

A history is a file of reports, oldest first, of which no more than a limit are kept. Its text is a JSON
object with a format version and the reports.

* `History.read`, `History.render` : the reports of a text, and the text of reports;
* `History.load` : the reports in the file, none where there is no file;
* `History.append` : one more report, in the place of the oldest if the limit is reached;
* `History.clear` : no file.
-/

namespace ProbeSuite

/-- A file of reports and how many it keeps, one at least. -/
structure History where
  path : Path
  limit : UInt64
  limit_pos : 0 < limit.toNat
  deriving DecidableEq

namespace History

def version : Nat := 1

def defaultLimit : UInt64 := Config.defaultLimit

/-- The history in a file. A limit of zero is one of one. -/
def make (path : Path) (limit : UInt64) : History :=
  if h : limit = 0 then ⟨path, 1, by decide⟩
  else ⟨path, limit, Nat.pos_of_ne_zero fun e => h (UInt64.toNat_inj.1 e)⟩

/-! ## The text -/

def stored (reports : List Report) : Json.Value :=
  .object [("version", .number version), ("results", .array (reports.map Report.stored))]

def render (reports : List Report) : String := String.ofList (stored reports).pretty

structure Draft where
  version : Option Nat
  reports : Option (List Report)

def record : Json.Record Draft (Nat × List Report) where
  name := "ResultsFile"
  fields := [
    ⟨"version", (·.version.isSome), fun d => storing (Json.natural 32 "u32") fun a => { d with version := some a }⟩,
    ⟨"results", (·.reports.isSome),
      fun d => storing (Json.array Report.record.read) fun a => { d with reports := some a }⟩]
  draft := ⟨none, none⟩
  build d := do
    let version ← required "version" d.version
    let reports ← required "results" d.reports
    .ok (version, reports)

/-! ## The file -/

def read (p : Path) (text : String) : Except HistoryFault (List Report) :=
  match Json.decode record.read text with
  | .error fault => .error (.malformed p fault)
  | .ok (v, reports) => if v = version then .ok reports else .error (.unsupported p v)

/-- The reports in the file, oldest first. -/
def load (h : History) (f : Files) : Except HistoryFault (List Report) :=
  if ¬f.has h.path then .ok []
  else
    match f.readText h.path with
    | .error e => .error (.unreadable h.path e)
    | .ok text => read h.path text

def count (h : History) (f : Files) : Except HistoryFault Nat := do .ok (← h.load f).length

/-- The latest reports, as many as the limit allows. -/
def keep (h : History) (reports : List Report) : List Report := reports.drop (reports.length - h.limit.toNat)

/-- The event of dropping the oldest of some reports, if any are dropped. -/
def rotation (h : History) (reports : List Report) : List Event :=
  if h.limit.toNat < reports.length then [.historyRotated (reports.length - h.limit.toNat) h.limit.toNat] else []

/-- Writes reports to the file, after making the directories above it. -/
def save (h : History) (f : Files) (reports : List Report) : Files × List Event × Except HistoryFault Unit :=
  match f.makeParent h.path with
  | (f, .error (parent, e)) => (f, [], .error (.noDirectory parent e))
  | (f, .ok ()) =>
    match Json.toText (stored reports) with
    | .error e => (f, [], .error (.badText e))
    | .ok text =>
      match f.write h.path text.toUTF8 with
      | (f, .error e) => (f, [], .error (.unwritable h.path e))
      | (f, .ok ()) => (f, [.historySaved h.path reports.length], .ok ())

def append (h : History) (f : Files) (r : Report) : Files × List Event × Except HistoryFault Unit :=
  match h.load f with
  | .error fault => (f, [], .error fault)
  | .ok reports =>
    let reports := reports ++ [r]
    let (f, events, saved) := h.save f (h.keep reports)
    (f, h.rotation reports ++ events, saved)

def clear (h : History) (f : Files) : Files × Except HistoryFault Unit :=
  if ¬f.has h.path then (f, .ok ())
  else
    match f.remove h.path with
    | .error e => (f, .error (.unremovable h.path e))
    | .ok f => (f, .ok ())

end History

end ProbeSuite
