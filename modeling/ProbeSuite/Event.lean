import ProbeSuite.Report
import ProbeSuite.Files.Path

/-!
# Events

What a suite reports about itself while it runs, apart from its output.

* `Event.level`, `message`, `fields` : the parts of a log record.
-/

namespace ProbeSuite

/-- How much an event matters. -/
inductive Level where
  | debug
  | info
  | warn
  deriving DecidableEq

def Level.name : Level → String
  | .debug => "DEBUG"
  | .info => "INFO"
  | .warn => "WARN"

/-- Something that happened. -/
inductive Event where
  | probeStarted (probe : Probe)
  | probeFinished (measurement : Measurement)
  | suiteComplete (probes : Nat) (total : Duration)
  /-- The oldest reports were dropped. -/
  | historyRotated (dropped limit : Nat)
  | historySaved (path : Path) (count : Nat)
  deriving DecidableEq

namespace Event

def level : Event → Level
  | .probeStarted _ => .debug
  | .probeFinished _ => .debug
  | .suiteComplete _ _ => .info
  | .historyRotated _ _ => .warn
  | .historySaved _ _ => .debug

def message : Event → String
  | .probeStarted _ => "probe started"
  | .probeFinished _ => "probe finished"
  | .suiteComplete _ _ => "suite complete"
  | .historyRotated _ _ => "rotating results history"
  | .historySaved _ _ => "results history saved"

def fields : Event → List (String × String)
  | .probeStarted p => [("probe", p.name), ("input", toString p.inputSize)]
  | .probeFinished m =>
    [("probe", m.probe.name), ("value", toString m.value.toNat), ("elapsed_ns", toString m.elapsed.wordNanos)]
  | .suiteComplete probes total => [("probes", toString probes), ("total_ns", toString total.wordNanos)]
  | .historyRotated dropped limit => [("dropped", toString dropped), ("limit", toString limit)]
  | .historySaved path count => [("path", path.text), ("count", toString count)]

end Event

end ProbeSuite
