/-!
# The four probes

A probe is one of four fixed workloads. A suite runs them in the order of `Probe.all`, each at its
`inputSize`. `tag` is the name a stored report uses, `name` the one of logs and summaries, `heading` the
line printed before the probe starts and `resultLabel` what precedes its value, if anything does.
-/

namespace ProbeSuite

inductive Probe where
  /-- Doubly recursive Fibonacci. -/
  | recursion
  /-- A counted summation. -/
  | iteration
  /-- A sequence grown one element at a time. -/
  | listAllocation
  /-- One key of a table, written again and again. -/
  | mapAccess
  deriving DecidableEq, Inhabited

namespace Probe

/-- Every probe, in run order. -/
def all : List Probe := [.recursion, .iteration, .listAllocation, .mapAccess]

def inputSize : Probe → Nat
  | .recursion => 28
  | .iteration => 1000000
  | .listAllocation => 100000
  | .mapAccess => 100000

/-- The numbered line printed before the probe starts. -/
def heading : Probe → String
  | .recursion => "1. Recursion (Fib 28)..."
  | .iteration => "2. Iteration (Sum 1M)..."
  | .listAllocation => "3. List Allocation (Push 100k)..."
  | .mapAccess => "4. Map Access (100k Overwrites)..."

/-- What stands before the value on the result line; recursion prints the bare value. -/
def resultLabel : Probe → Option String
  | .recursion => none
  | .iteration => some "Result"
  | .listAllocation => some "Len"
  | .mapAccess => some "Last Val"

/-- The name in logs and summaries. -/
def name : Probe → String
  | .recursion => "recursion"
  | .iteration => "iteration"
  | .listAllocation => "list_allocation"
  | .mapAccess => "map_access"

/-- The name in stored reports. -/
def tag : Probe → String
  | .recursion => "Recursion"
  | .iteration => "Iteration"
  | .listAllocation => "ListAllocation"
  | .mapAccess => "MapAccess"

def ofTag? (tag : String) : Option Probe := all.find? (·.tag = tag)

theorem ofTag?_tag (p : Probe) : ofTag? p.tag = some p := by cases p <;> decide

theorem tag_of_ofTag? {t : String} {p : Probe} (h : ofTag? t = some p) : p.tag = t := by
  simpa using List.find?_some h

end Probe

end ProbeSuite
