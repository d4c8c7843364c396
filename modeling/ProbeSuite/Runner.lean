import ProbeSuite.Config.File
import ProbeSuite.Environment
import ProbeSuite.History
import ProbeSuite.Script

/-!
# Runners

A runner runs the suite as its configuration says: it writes a report to a sink and, if that succeeded and
the configuration asks for it, adds the report to a history.

* `Runner.make`, `Runner.withHistoryPath` : runners;
* `Conditions` : what a run finds: the time, the host, and how long the probes take;
* `Runner.conclude` : what follows when the script of a run came to its end;
* `Runner.run` : one run, with all it changes and says.
-/

namespace ProbeSuite

/-- A valid configuration, and a history if there is a place for one. -/
structure Runner where
  config : Config
  history : Option History
  deriving DecidableEq

/-- What a run finds. The probes run one after the other on one clock, so the times together are a
duration. Only the event of a complete report needs that: adding up times that are none would end the program. -/
structure Conditions where
  timestamp : Timestamp
  host : Host
  elapsed : Probe → Duration
  total_lt : (Probe.all.map fun p => (elapsed p).nanos).sum < 2 ^ 64 * nanosPerSec

def Conditions.measured (c : Conditions) (p : Probe) : Measurement := ⟨p, p.value, c.elapsed p⟩

/-- What a run leaves behind. -/
structure Outcome where
  files : Files
  delivery : Delivery
  events : List Event
  result : Except Failure Report

namespace Runner

/-- A runner for a valid configuration, with the standard history if reports are to be kept. -/
def make (c : Config) (e : Environment) : Except Failure Runner :=
  match c.validate with
  | .error fault => .error (.config fault)
  | .ok () =>
    if c.recordHistory then
      match e.historyFile with
      | .error fault => .error (.history fault)
      | .ok p => .ok ⟨c, some (.make p c.historyLimit)⟩
    else .ok ⟨c, none⟩

def withHistoryPath (r : Runner) (p : Path) : Runner :=
  { r with history := some (.make p r.config.historyLimit) }

/-- The script for the configured output. -/
def script (r : Runner) (time : Timestamp) (host : Host) : Script Report :=
  match r.config.output with
  | .text => .streaming time host
  | .json => .collecting time host

/-- The event of a complete report. The times that a run measures have a total. -/
def complete (report : Report) : Event :=
  .suiteComplete report.measurements.length (report.total?.getD .zero)

/-- Adds a report to the history, if reports are to be kept. -/
def record (r : Runner) (f : Files) (report : Report) : Files × List Event × Except HistoryFault Unit :=
  match r.history with
  | some h => if r.config.recordHistory then h.append f report else (f, [], .ok ())
  | none => (f, [], .ok ())

/-- The end of a run whose script was played: a report that was delivered goes to the history. -/
def conclude (r : Runner) (f : Files) : Script.Progress × Except Failure Report → Outcome
  | (s, .error failure) => ⟨f, s.delivery, s.events, .error failure⟩
  | (s, .ok report) =>
    match r.record f report with
    | (f, events, .ok ()) => ⟨f, s.delivery, s.events ++ complete report :: events, .ok report⟩
    | (f, events, .error fault) =>
      ⟨f, s.delivery, s.events ++ complete report :: events, .error (.history fault)⟩

/-- One run: the report goes to the sink, and then to the history. -/
def run (r : Runner) (sink : Sink) (c : Conditions) (f : Files) : Outcome :=
  r.conclude f ((r.script c.timestamp c.host).play sink c.measured ⟨.empty, []⟩)

/-! ## Descriptions -/

/-- The settings, for a reader of logs. -/
def configText (c : Config) : String :=
  let output :=
    match c.output with
    | .text => "Text"
    | .json => "Json"
  s!"SuiteConfig \x7b output: {output}, record_history: {c.recordHistory}, " ++
    s!"history_limit: {c.historyLimit.toNat} \x7d"

def historyText (h : History) : String :=
  s!"ResultsStorage \x7b results_path: {Text.quotedPath h.path.text}, limit: {h.limit.toNat} \x7d"

def text (r : Runner) : String :=
  let storage :=
    match r.history with
    | some h => s!"Some({historyText h})"
    | none => "None"
  s!"SuiteRunner \x7b config: {configText r.config}, storage: {storage} \x7d"

end Runner

end ProbeSuite
