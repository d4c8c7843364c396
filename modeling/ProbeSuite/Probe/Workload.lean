import ProbeSuite.Natural
import ProbeSuite.Probe

/-!
# The workloads

Every number of a workload is a 64-bit word, and a sum that leaves 64 bits has no value.

* `fib n` : Fibonacci by double recursion;
* `accumulate n` : `0 + 1 + ... + (n - 1)`, added up one by one;
* `appendSequence n` : `0, 1, ..., n - 1`, appended one by one;
* `overwriteKey n` : a table whose one key was given `0, 1, ..., n - 1` in turn;
* `Probe.value` : what a probe reports at its input size.
-/

namespace ProbeSuite

namespace Workload

/-- Doubly recursive Fibonacci with `fib 0 = 0` and `fib 1 = 1`. -/
def fib : Nat → Option UInt64
  | 0 => some 0
  | 1 => some 1
  | n + 2 => do
    let a ← fib (n + 1)
    let b ← fib n
    addWords? a b

/-- Adds `i, i + 1, ...` to `sum`, `count` numbers in all. -/
def accumulateFrom : (count : Nat) → (i sum : UInt64) → Option UInt64
  | 0, _, sum => some sum
  | count + 1, i, sum => do
    let sum ← addWords? sum i
    accumulateFrom count (i + 1) sum

/-- The sum of the numbers below `limit`. -/
def accumulate (limit : Nat) : Option UInt64 := accumulateFrom limit 0 0

/-- Appends `j, j + 1, ...` to `values`, `count` numbers in all. -/
def appendFrom : (count : Nat) → (j : UInt64) → (values : Array UInt64) → Array UInt64
  | 0, _, values => values
  | count + 1, j, values => appendFrom count (j + 1) (values.push j)

/-- The numbers below `count`, in order. -/
def appendSequence (count : Nat) : Array UInt64 := appendFrom count 0 #[]

def mapKey : String := "key"

/-- Gives `key` the value `v`, in place if the table has the key. -/
def put (key : String) (v : UInt64) : List (String × UInt64) → List (String × UInt64)
  | [] => [(key, v)]
  | (k, w) :: rest => if k = key then (key, v) :: rest else (k, w) :: put key v rest

/-- Gives `mapKey` the values `k, k + 1, ...`, `count` of them. -/
def overwriteFrom : (count : Nat) → (k : UInt64) → List (String × UInt64) → List (String × UInt64)
  | 0, _, table => table
  | count + 1, k, table => overwriteFrom count (k + 1) (put mapKey k table)

/-- The table after `mapKey` was given every number below `count`. -/
def overwriteKey (count : Nat) : List (String × UInt64) := overwriteFrom count 0 []

end Workload

open Workload in
/-- What the probe computes on an input: a Fibonacci number, a sum, a length, or the last value written. -/
def Probe.compute (n : Nat) : Probe → Option UInt64
  | .recursion => fib n
  | .iteration => accumulate n
  | .listAllocation => some (UInt64.ofNat (appendSequence n).size)
  | .mapAccess => some (((overwriteKey n).lookup mapKey).getD 0)

/-- The value a probe reports. No sum leaves 64 bits at the sizes the suite runs, so the `0` is never used. -/
def Probe.value (p : Probe) : UInt64 := (p.compute p.inputSize).getD 0

end ProbeSuite
