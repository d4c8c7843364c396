import ProbeSuite.Json.Record
import ProbeSuite.Json.Value
import ProbeSuite.Report

/-!
# Stored reports

A report is stored as a JSON object with the members `timestamp`, `system_info` and `probes`. Times are whole
nanoseconds modulo `2^64`, all other numbers are exact.

* `Report.stored` : the JSON value of a report;
* `Report.record` : the record that reads it back.
-/

namespace ProbeSuite

/-- The value of a draft's field, or the field's name while it is missing. -/
def required {α : Type} (name : String) : Option α → Except String α
  | some a => .ok a
  | none => .error name

/-- The reader of a field: `read` gives the value that `set` stores in the draft. -/
def storing {σ α : Type} (read : Json.Reader α) (set : α → σ) (cs : List Char) :
    Except Json.Fault (σ × List Char) := do
  let (a, rest) ← read cs
  .ok (set a, rest)

def readWord (type : String) (cs : List Char) : Except Json.Fault (UInt64 × List Char) := do
  let (n, rest) ← Json.natural 64 type cs
  .ok (UInt64.ofNat n, rest)

/-- A name of a probe. -/
def Probe.read (cs : List Char) : Except Json.Fault (Probe × List Char) :=
  Json.variant (Probe.all.map Probe.tag) Probe.ofTag? cs

/-- A word of nanoseconds. -/
def Duration.read (cs : List Char) : Except Json.Fault (Duration × List Char) := do
  let (n, rest) ← readWord "u64" cs
  .ok (.ofWord n, rest)

/-! ## Measurements -/

namespace Measurement

def stored (m : Measurement) : Json.Value :=
  .object [("kind", .string m.probe.tag), ("value", .number m.value.toNat),
    ("elapsed", .number m.elapsed.wordNanos)]

structure Draft where
  probe : Option Probe
  value : Option UInt64
  elapsed : Option Duration

def record : Json.Record Draft Measurement where
  name := "ProbeResult"
  fields := [
    ⟨"kind", (·.probe.isSome), fun d => storing Probe.read fun a => { d with probe := some a }⟩,
    ⟨"value", (·.value.isSome), fun d => storing (readWord "u64") fun a => { d with value := some a }⟩,
    ⟨"elapsed", (·.elapsed.isSome), fun d => storing Duration.read fun a => { d with elapsed := some a }⟩]
  draft := ⟨none, none, none⟩
  build d := do
    let probe ← required "kind" d.probe
    let value ← required "value" d.value
    let elapsed ← required "elapsed" d.elapsed
    .ok ⟨probe, value, elapsed⟩

end Measurement

/-! ## Hosts -/

namespace Host

def stored (h : Host) : Json.Value :=
  .object [("os", .string h.os), ("arch", .string h.arch), ("cpu_count", .number h.cpuCount.toNat)]

structure Draft where
  os : Option String
  arch : Option String
  cpuCount : Option UInt64

def record : Json.Record Draft Host where
  name := "SystemInfo"
  fields := [
    ⟨"os", (·.os.isSome), fun d => storing Json.string fun a => { d with os := some a }⟩,
    ⟨"arch", (·.arch.isSome), fun d => storing Json.string fun a => { d with arch := some a }⟩,
    ⟨"cpu_count", (·.cpuCount.isSome),
      fun d => storing (readWord "usize") fun a => { d with cpuCount := some a }⟩]
  draft := ⟨none, none, none⟩
  build d := do
    let os ← required "os" d.os
    let arch ← required "arch" d.arch
    let cpuCount ← required "cpu_count" d.cpuCount
    .ok ⟨os, arch, cpuCount⟩

end Host

/-! ## Reports -/

namespace Report

def stored (r : Report) : Json.Value :=
  .object [("timestamp", .string (String.ofList r.timestamp.stored)), ("system_info", r.host.stored),
    ("probes", .array (r.measurements.map Measurement.stored))]

structure Draft where
  timestamp : Option Timestamp
  host : Option Host
  measurements : Option (List Measurement)

def record : Json.Record Draft Report where
  name := "SuiteReport"
  fields := [
    ⟨"timestamp", (·.timestamp.isSome),
      fun d => storing Json.timestamp fun a => { d with timestamp := some a }⟩,
    ⟨"system_info", (·.host.isSome), fun d => storing Host.record.read fun a => { d with host := some a }⟩,
    ⟨"probes", (·.measurements.isSome),
      fun d => storing (Json.array Measurement.record.read) fun a => { d with measurements := some a }⟩]
  draft := ⟨none, none, none⟩
  build d := do
    let timestamp ← required "timestamp" d.timestamp
    let host ← required "system_info" d.host
    let measurements ← required "probes" d.measurements
    .ok ⟨timestamp, host, measurements⟩

def compact (r : Report) : String := String.ofList r.stored.compact

def pretty (r : Report) : String := String.ofList r.stored.pretty

end Report

end ProbeSuite
