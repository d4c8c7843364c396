import ProbeSuite.Config
import ProbeSuite.Files.Path
import ProbeSuite.IoError
import ProbeSuite.Json.Fault

/-!
# Failures

A failure belongs to one of four classes: the output sink, the configuration, the stored history, or the
rendering of a report. Its cause says what went wrong, and the texts follow from the cause.

* `Failure.ofIo`, `ofJson`, `ofToml` : the class of an error of which nothing else is known;
* `Failure.ofPrint` : that of an error in printing a report;
* `Failure.message` : the text that names class and cause;
* `Failure.friendly` : the text for someone who only ran the program;
* `Failure.source?` : the text of the error below it, if there is one.
-/

namespace ProbeSuite

inductive ConfigFault where
  | limitZero
  | limitTooLarge (limit : UInt64)
  | unreadable (path : Path) (error : IoError)
  | malformed (path : Path) (fault : Config.ReadFault)
  | noDirectory (path : Path) (error : IoError)
  | unwritable (path : Path) (error : IoError)
  /-- A text that does not come from a file is no configuration. -/
  | badText (fault : Config.ReadFault)
  /-- The limit is beyond the integers of TOML. -/
  | unprintable
  | other (text : String)
  deriving DecidableEq

def ConfigFault.message : ConfigFault → String
  | .limitZero => "History limit must be greater than 0"
  | .limitTooLarge limit => s!"History limit too large: {limit.toNat} (max: {Config.maxLimit.toNat})"
  | .unreadable path error => s!"Failed to read config file {path.text}: {error.message}"
  | .malformed path fault => s!"Failed to parse config file {path.text}: {fault.message}"
  | .noDirectory path error => s!"Failed to create config directory {path.text}: {error.message}"
  | .unwritable path error => s!"Failed to write config file {path.text}: {error.message}"
  | .badText fault => s!"TOML parsing error: {fault.message}"
  | .unprintable => "TOML serialization error: out-of-range value for u64 type"
  | .other text => text

inductive HistoryFault where
  | unreadable (path : Path) (error : IoError)
  | malformed (path : Path) (fault : Json.Located)
  | unsupported (path : Path) (version : Nat)
  | noDirectory (path : Path) (error : IoError)
  | unwritable (path : Path) (error : IoError)
  | unremovable (path : Path) (error : IoError)
  /-- An error of JSON that does not come from a file. -/
  | badText (error : Json.Error)
  | other (text : String)
  deriving DecidableEq

def HistoryFault.message : HistoryFault → String
  | .unreadable path error => s!"Failed to read results file {path.text}: {error.message}"
  | .malformed path fault => s!"Failed to parse results file {path.text}: {fault.message}"
  | .unsupported path version => s!"Unsupported results file version {version} in {path.text}"
  | .noDirectory path error => s!"Failed to create results directory {path.text}: {error.message}"
  | .unwritable path error => s!"Failed to write results file {path.text}: {error.message}"
  | .unremovable path error => s!"Failed to remove results file {path.text}: {error.message}"
  | .badText error => s!"JSON serialization error: {error.message}"
  | .other text => text

/-- What goes wrong with a suite. -/
inductive Failure where
  /-- The sink failed. -/
  | io (error : IoError)
  | config (fault : ConfigFault)
  | history (fault : HistoryFault)
  /-- The report could not be rendered. -/
  | output (text : String)
  deriving DecidableEq

namespace Failure

/-! ## Classes of errors -/

def ofIo (e : IoError) : Failure := .io e

def ofJson (e : Json.Error) : Failure := .history (.badText e)

def ofToml (fault : Config.ReadFault) : Failure := .config (.badText fault)

/-- An error in printing a report is one of the sink, or else one of the report. -/
def ofPrint (e : Json.Error) : Failure :=
  if e.isIo then ofIo e.toIo else .output s!"Failed to write JSON report: {e.message}"

/-! ## Texts -/

def message : Failure → String
  | .io error => s!"I/O error: {error.message}"
  | .config fault => s!"Configuration error: {fault.message}"
  | .history fault => s!"Results persistence error: {fault.message}"
  | .output text => s!"Output error: {text}"

/-- What to tell someone who only ran the program. -/
def friendly : Failure → String
  | .io error =>
    if error.isBrokenPipe then "Output stream closed before the report was written." else message (.io error)
  | .config fault => s!"Configuration error: {fault.message}. Check your settings."
  | .history _ => "Failed to save results. Check disk space and permissions."
  | .output text => message (.output text)

/-- The text of the error below this one. -/
def source? : Failure → Option String
  | .io error => some error.message
  | _ => none

end Failure

end ProbeSuite
