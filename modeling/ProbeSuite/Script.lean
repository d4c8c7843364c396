import ProbeSuite.Event
import ProbeSuite.Failure
import ProbeSuite.Json.Printer
import ProbeSuite.Report.Stored

/-!
# Scripts

A script says what a suite does step by step: write a text, print a value, flush, and measure a probe, where later
steps depend on what was measured. It can be played against a real output and a real clock, or, as here, against a sink
and given measurements.

* `Script` : the steps and a result;
* `Script.streaming` : the text report, written while the probes run;
* `Script.collecting` : the JSON report, written after they all ran;
* `Script.play` : the result, or the failure that ended the script.
-/

namespace ProbeSuite

inductive Script (α : Type) where
  | done (result : α)
  | write (text : String) (next : Script α)
  | print (value : Json.Value) (next : Script α)
  | flush (next : Script α)
  | measure (probe : Probe) (next : Measurement → Script α)

namespace Script

/-! ## The two reports -/

def line {α : Type} (text : String) (next : Script α) : Script α := .write (text ++ "\n") next

def result {α : Type} (m : Measurement) (next : Script α) : Script α :=
  line m.resultLine (line m.timeLine next)

/-- Measures probes one after the other, each between its heading and its result; both are flushed. -/
def streamProbes : List Probe → (List Measurement → Script Report) → Script Report
  | [], finish => finish []
  | p :: ps, finish =>
    line p.heading <| .flush <| .measure p fun m =>
      result m <| .flush <| streamProbes ps fun ms => finish (m :: ms)

def streaming (time : Timestamp) (host : Host) : Script Report :=
  line Report.title <| streamProbes Probe.all fun ms => line Report.footer <| .flush <| .done ⟨time, host, ms⟩

def measureAll : List Probe → (List Measurement → Script Report) → Script Report
  | [], finish => finish []
  | p :: ps, finish => .measure p fun m => measureAll ps fun ms => finish (m :: ms)

def collecting (time : Timestamp) (host : Host) : Script Report :=
  measureAll Probe.all fun ms =>
    let report : Report := ⟨time, host, ms⟩
    .print report.stored <| .write "\n" <| .flush <| .done report

/-! ## Playing -/

/-- What a script did so far. -/
structure Progress where
  delivery : Delivery
  events : List Event
  deriving DecidableEq

/-- Plays a script against a sink, with what each probe measures. -/
def play {α : Type} (sink : Sink) (measured : Probe → Measurement) :
    Script α → Progress → Progress × Except Failure α
  | .done a, s => (s, .ok a)
  | .write text next, s =>
    match sink.write text s.delivery with
    | (d, .ok ()) => play sink measured next { s with delivery := d }
    | (d, .error e) => ({ s with delivery := d }, .error (.ofIo e))
  | .print v next, s =>
    match Json.print sink v s.delivery with
    | (d, .ok ()) => play sink measured next { s with delivery := d }
    | (d, .error e) => ({ s with delivery := d }, .error (.ofPrint e))
  | .flush next, s =>
    match sink.flush s.delivery with
    | (d, .ok ()) => play sink measured next { s with delivery := d }
    | (d, .error e) => ({ s with delivery := d }, .error (.ofIo e))
  | .measure p next, s =>
    let m := measured p
    play sink measured (next m) { s with events := s.events ++ [.probeStarted p, .probeFinished m] }

end Script

end ProbeSuite
