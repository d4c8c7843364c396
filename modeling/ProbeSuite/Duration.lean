import ProbeSuite.Natural

/-!
# Durations

A duration is a whole number of nanoseconds whose seconds fit a 64-bit word.

* `Duration.secs`, `Duration.subsecNanos` : the two parts;
* `Duration.add?` : the sum, if it is a duration again;
* `Duration.wordNanos`, `Duration.wordMicros` : whole nano- and microseconds modulo `2^64`.
-/

namespace ProbeSuite

abbrev nanosPerSec : Nat := 1000000000

/-- A span of time, in nanoseconds. -/
@[ext] structure Duration where
  nanos : Nat
  nanos_lt : nanos < 2 ^ 64 * nanosPerSec
  deriving DecidableEq

namespace Duration

def zero : Duration := ⟨0, by decide⟩

instance : Inhabited Duration := ⟨zero⟩

def ofNanos? (n : Nat) : Option Duration :=
  if h : n < 2 ^ 64 * nanosPerSec then some ⟨n, h⟩ else none

def ofWord (n : UInt64) : Duration :=
  ⟨n.toNat, by have := n.toNat_lt; simp only [nanosPerSec]; omega⟩

def secs (d : Duration) : Nat := d.nanos / nanosPerSec

def subsecNanos (d : Duration) : Nat := d.nanos % nanosPerSec

theorem secs_lt (d : Duration) : d.secs < 2 ^ 64 := by
  have := d.nanos_lt
  simp only [secs, nanosPerSec] at *
  omega

theorem subsecNanos_lt (d : Duration) : d.subsecNanos < nanosPerSec :=
  Nat.mod_lt _ (by decide)

/-- Whole nanoseconds modulo `2^64`: what a report stores. -/
def wordNanos (d : Duration) : Nat := d.nanos % 2 ^ 64

/-- Whole microseconds modulo `2^64`: what a summary shows. -/
def wordMicros (d : Duration) : Nat := d.nanos / 1000 % 2 ^ 64

/-- The sum, if its seconds still fit a word. -/
def add? (a b : Duration) : Option Duration := ofNanos? (a.nanos + b.nanos)

end Duration

end ProbeSuite
