import ProbeSuite.Duration.Seconds
import ProbeSuite.Duration.Tally
import ProbeSuite.Duration.Units
import ProbeSuite.Probe.Workload
import ProbeSuite.Timestamp

/-!
# Reports

A report holds when and where a suite ran, and what its probes measured, in run order.

* `Measurement` : a probe, the value it computed and the time that took;
* `Measurement.resultLine`, `timeLine` : its two lines in a text report;
* `Report.total?` : the sum of the times, if it is a duration;
* `Report.summary?` : the report on one line; there is none without a total;
* `Report.text` : the lines of a text report.
-/

namespace ProbeSuite

/-- The value a probe computed, and the time it took. -/
structure Measurement where
  probe : Probe
  value : UInt64
  elapsed : Duration
  deriving DecidableEq, Inhabited

structure Host where
  os : String
  arch : String
  cpuCount : UInt64
  deriving DecidableEq, Inhabited

structure Report where
  timestamp : Timestamp
  host : Host
  measurements : List Measurement
  deriving DecidableEq, Inhabited

namespace Measurement

/-- The value, after the label of its probe if that has one. -/
def resultLine (m : Measurement) : String :=
  match m.probe.resultLabel with
  | some label => s!"   {label}: {m.value.toNat}"
  | none => s!"{m.value.toNat}"

def timeLine (m : Measurement) : String := "   Time: " ++ m.elapsed.secondsText

/-- The probe's name, the value, and the time in units. -/
def summary (m : Measurement) : String := s!"{m.probe.name}={m.value.toNat} ({m.elapsed.unitsText})"

end Measurement

namespace Report

def push (r : Report) (m : Measurement) : Report := { r with measurements := r.measurements ++ [m] }

/-- The first measurement of a probe. -/
def get? (r : Report) (p : Probe) : Option Measurement := r.measurements.find? (·.probe = p)

def total? (r : Report) : Option Duration := Duration.sum? (r.measurements.map (·.elapsed))

/-- Time, measurements and total on one line. -/
def summary? (r : Report) : Option String := do
  let total ← r.total?
  let probes := ", ".intercalate (r.measurements.map Measurement.summary)
  some s!"{String.ofList r.timestamp.shown} - {probes} - total {total.unitsText}"

/-! ## The text report -/

def title : String := "--- Python Benchmark Suite ---"

def footer : String := "--- END ---"

def lines (r : Report) : List String :=
  title :: (r.measurements.flatMap fun m => [m.probe.heading, m.resultLine, m.timeLine]) ++ [footer]

/-- The text report. Every line is ended. -/
def text (r : Report) : String := String.join (r.lines.map (· ++ "\n"))

end Report

end ProbeSuite
